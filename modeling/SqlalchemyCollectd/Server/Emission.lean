import SqlalchemyCollectd.Server.Steps

/-!
# SqlalchemyCollectd.Server.Emission

The external values of a summary, one by one.

A summary that does not raise is made of the passes over the six pairs of a type and
a grouping (`mem_summarize`). A row has one value for each field that all of its
records have a value for, named after the row and the field and carrying the sum of
the field over the records (`emits_of_getElem?`, `exists_emits`). Within a pass no two
values are about the same thing (`pairwise_passValues`).
-/

namespace SqlalchemyCollectd

namespace Receiver

open TimeBucket

variable {α : Type} [Add α] [Zero α]

theorem mem_passes (τ : InternalType) (g : Grouping) : (τ, g) ∈ passes := by
  cases τ <;> cases g <;> decide

/-- The buckets accept both of their passes exactly when the summary does not raise. -/
theorem acceptsTimes_of_summarize {t : ℚ} {s : Receiver α} (hfiled : ∀ σ, Filed σ (s.buckets σ)) :
    (summarize t s).1.raised = none ↔ ∀ σ, (s.buckets σ).AcceptsTimes t 2 := by
  rw [summarize, summarizePasses_raised passes hfiled]
  refine forall_congr' fun σ => ?_
  have hcount : (passes.map Prod.fst).count σ = 2 := by
    cases σ <;> decide
  rw [hcount]

/-- The bucket of a type as a summary finds it. -/
def swept (t : ℚ) (s : Receiver α) (τ : InternalType) : TimeBucket ProcessKey (Message α) :=
  (s.buckets τ).visit t none

omit [Add α] [Zero α] in
theorem filed_swept {s : Receiver α} (hfiled : ∀ σ, Filed σ (s.buckets σ)) (t : ℚ)
    (τ : InternalType) : Filed τ (s.swept t τ) :=
  filed_visit (hfiled τ) t none

/-- **A summary that does not raise**, in full. -/
theorem summarize_of_raised {t : ℚ} {s : Receiver α} (hfiled : ∀ σ, Filed σ (s.buckets σ))
    (hraised : (summarize t s).1.raised = none) :
    summarize t s =
      (⟨passes.flatMap fun p => passValues t p.1 p.2 (s.swept t p.1), none⟩, ⟨s.swept t⟩) := by
  have haccepts := (acceptsTimes_of_summarize hfiled).mp hraised
  exact summarize_eq (fun σ => (haccepts σ).1) (fun σ => (haccepts σ).2.1) hfiled

theorem mem_summarize {t : ℚ} {s : Receiver α} (hfiled : ∀ σ, Filed σ (s.buckets σ))
    (hraised : (summarize t s).1.raised = none) {v : Values α} :
    v ∈ (summarize t s).1.values ↔ ∃ τ g, v ∈ passValues t τ g (s.swept t τ) := by
  rw [summarize_of_raised hfiled hraised, List.mem_flatMap]
  constructor
  · rintro ⟨⟨τ, g⟩, -, hv⟩
    exact ⟨τ, g, hv⟩
  · intro ⟨τ, g, hv⟩
    exact ⟨(τ, g), mem_passes τ g, hv⟩

/-! ### The values of a row -/

/-- What a value is about: a host, a program and a field. -/
def subjectOf (v : Values α) : (Option String × Option String) × Option String :=
  (labelOf v, v.typeInstance)

/-- The value for the `i`-th field of a row, as a summary emits it. -/
structure Emits (t : ℚ) (τ : InternalType) (g : Grouping) (b : TimeBucket ProcessKey (Message α))
    (c : String ×ₗ String) (i : ℕ) (field : String) (v : Values α) : Prop where
  row : c ∈ b.rows g
  name : τ.toType.names[i]? = some field
  complete : ∀ m ∈ b.rowRecords g c, (m.values[i]?).isSome
  subject : subjectOf v = (rowLabel c, some field)
  type : v.type = some τ.externalName
  time : v.time = some t
  values : v.values = [pySum ((b.rowRecords g c).filterMap fun m => m.values[i]?)]
  plugin : v.plugin = none ∨ ∃ m ∈ b.rowRecords g c, v.plugin = some m.plugin

section Rows

variable {t : ℚ} {τ : InternalType} {g : Grouping} {b : TimeBucket ProcessKey (Message α)}
  {c : String ×ₗ String} {i : ℕ}

omit [Add α] [Zero α] in
/-- A row that is there has records. -/
theorem exists_rowRecords (hc : c ∈ b.rows g) :
    ∃ first rest, b.rowRecords g c = first :: rest :=
  exists_filterMap_getItem? (members_ne_nil hc) fun _ hk => (mem_members.mp hk).1

/-- **What stands in a row** is the value of one of its fields. -/
theorem emits_of_getElem? (hfiled : Filed τ b) (hc : c ∈ b.rows g) {v : Values α}
    (hv : (rowValues t τ g (b.rowRecords g c))[i]? = some v) :
    ∃ field, Emits t τ g b c i field v := by
  have hlabel := labelOf_of_mem hfiled (List.mem_of_getElem? hv)
  obtain ⟨first, rest, hrecs⟩ := exists_rowRecords hc
  rw [hrecs, getElem?_rowValues] at hv
  obtain ⟨field, hname, hv⟩ := Option.bind_eq_some_iff.mp hv
  obtain ⟨xs, hxs, rfl⟩ := Option.map_eq_some_iff.mp hv
  rw [← hrecs] at hxs
  obtain ⟨hall, rfl⟩ := eq_filterMap_of_mapM hxs
  refine ⟨field, hc, hname, hall, Prod.ext hlabel rfl, rfl, Grouping.build_time .., rfl, ?_⟩
  have hplugin := Values.sum_slot_mem Values.plugin (fun _ _ => rfl) (fun _ _ => rfl)
    first.toValues (rest.map Message.toValues)
  rw [← Grouping.build_plugin t first.interval g] at hplugin
  refine hplugin.imp_right ?_
  intro ⟨v, hv, hplug⟩
  rw [← List.map_cons] at hv
  obtain ⟨m, hm, rfl⟩ := List.mem_map.mp hv
  exact ⟨m, hrecs ▸ hm, hplug⟩

/-- **A field that all records have a value for** stands in its row. -/
theorem exists_emits (hfiled : Filed τ b) (hc : c ∈ b.rows g) {field : String}
    (hname : τ.toType.names[i]? = some field)
    (hcomplete : ∀ m ∈ b.rowRecords g c, (m.values[i]?).isSome) :
    ∃ v, (rowValues t τ g (b.rowRecords g c))[i]? = some v ∧ Emits t τ g b c i field v := by
  obtain ⟨first, rest, hrecs⟩ := exists_rowRecords hc
  obtain ⟨v, hv⟩ : ∃ v, (rowValues t τ g (b.rowRecords g c))[i]? = some v := by
    rw [hrecs] at hcomplete ⊢
    rw [getElem?_rowValues, hname, Option.bind_some, mapM_eq_filterMap hcomplete]
    exact ⟨_, rfl⟩
  obtain ⟨field', hemits⟩ := emits_of_getElem? hfiled hc hv
  obtain rfl : field' = field := Option.some.inj (hemits.name.symm.trans hname)
  exact ⟨v, hv, hemits⟩

/-- The values of a pass are those of its rows. -/
theorem mem_passValues (hfiled : Filed τ b) {v : Values α} :
    v ∈ passValues t τ g b ↔ ∃ c i field, Emits t τ g b c i field v ∧
      (rowValues t τ g (b.rowRecords g c))[i]? = some v := by
  rw [passValues, List.mem_flatMap]
  constructor
  · intro ⟨c, hc, hv⟩
    obtain ⟨i, hi⟩ := List.mem_iff_getElem?.mp hv
    obtain ⟨field, hemits⟩ := emits_of_getElem? hfiled hc hi
    exact ⟨c, i, field, hemits, hi⟩
  · intro ⟨c, i, field, hemits, hi⟩
    exact ⟨c, hemits.row, List.mem_of_getElem? hi⟩

/-! ### Distinct subjects -/

theorem nodup_names (τ : InternalType) : τ.toType.names.Nodup := by
  cases τ <;> decide

/-- The values of a row are about different fields. -/
theorem pairwise_rowValues (hfiled : Filed τ b) (hc : c ∈ b.rows g) :
    (rowValues t τ g (b.rowRecords g c)).Pairwise fun v w => subjectOf v ≠ subjectOf w := by
  rw [List.pairwise_iff_getElem]
  intro i j hi hj hij heq
  obtain ⟨field, hv⟩ := emits_of_getElem? hfiled hc (List.getElem?_eq_getElem (i := i) hi)
  obtain ⟨field', hw⟩ := emits_of_getElem? hfiled hc (List.getElem?_eq_getElem (i := j) hj)
  rw [hv.subject, hw.subject] at heq
  have hfield : field = field' := by simpa using heq
  have hlt := (List.getElem?_eq_some_iff.mp hv.name).1
  refine hij.ne ((List.getElem?_inj hlt (nodup_names τ)).mp ?_)
  rw [hv.name, hw.name, hfield]

/-- **The values of a pass are about different things.** -/
theorem pairwise_passValues (hfiled : Filed τ b) :
    (passValues t τ g b).Pairwise fun v w => subjectOf v ≠ subjectOf w := by
  rw [passValues, List.pairwise_flatMap]
  refine ⟨fun c hc => pairwise_rowValues hfiled hc, ?_⟩
  refine (b.rows_nodup g).imp fun hne v hv w hw heq => hne ?_
  refine rowLabel_injective ?_
  rw [← labelOf_of_mem hfiled hv, ← labelOf_of_mem hfiled hw]
  exact congrArg Prod.fst heq

end Rows

/-- The fields of different types have different names. -/
theorem disjoint_names {σ τ : InternalType} (h : σ ≠ τ) :
    ∀ field ∈ σ.toType.names, field ∉ τ.toType.names := by
  cases σ <;> cases τ <;> first | exact absurd rfl h | decide

theorem Emits.mem_names {t : ℚ} {τ : InternalType} {g : Grouping}
    {b : TimeBucket ProcessKey (Message α)} {c : String ×ₗ String} {i : ℕ} {field : String}
    {v : Values α} (h : Emits t τ g b c i field v) : field ∈ τ.toType.names :=
  List.mem_of_getElem? h.name

/-- The value is about a field of the type. -/
def OfType (τ : InternalType) (v : Values α) : Prop :=
  ∃ field ∈ τ.toType.names, v.typeInstance = some field

instance (τ : InternalType) (v : Values α) : Decidable (OfType τ v) :=
  inferInstanceAs (Decidable (∃ field ∈ τ.toType.names, v.typeInstance = some field))

theorem ofType_of_mem_passValues {t : ℚ} {σ : InternalType} {g : Grouping}
    {b : TimeBucket ProcessKey (Message α)} (hfiled : Filed σ b) {v : Values α}
    (hv : v ∈ passValues t σ g b) (τ : InternalType) : OfType τ v ↔ σ = τ := by
  obtain ⟨c, i, field, hemits, -⟩ := (mem_passValues hfiled).mp hv
  have hname : v.typeInstance = some field := congrArg Prod.snd hemits.subject
  constructor
  · intro ⟨field', hfield', hname'⟩
    obtain rfl := Option.some.inj (hname.symm.trans hname')
    by_contra hne
    exact disjoint_names hne field hemits.mem_names hfield'
  · rintro rfl
    exact ⟨field, hemits.mem_names, hname⟩

/-- **What a summary says of a type**: the rows of the programs, and then those of the hosts. -/
theorem filter_ofType {t : ℚ} {s : Receiver α} (hfiled : ∀ σ, Filed σ (s.buckets σ))
    (hraised : (summarize t s).1.raised = none) (τ : InternalType) :
    (summarize t s).1.values.filter (fun v => OfType τ v) =
      passValues t τ .byProgname (s.swept t τ) ++ passValues t τ .byHostname (s.swept t τ) := by
  have hpass : ∀ σ g, (passValues t σ g (s.swept t σ)).filter (fun v => OfType τ v) =
      if σ = τ then passValues t σ g (s.swept t σ) else [] := by
    intro σ g
    have hof := fun v hv => ofType_of_mem_passValues (v := v) (t := t) (g := g)
      (filed_swept hfiled t σ) hv τ
    split
    · rename_i hσ
      exact List.filter_eq_self.mpr fun v hv => decide_eq_true ((hof v hv).mpr hσ)
    · rename_i hσ
      exact List.filter_eq_nil_iff.mpr fun v hv hname =>
        hσ ((hof v hv).mp (of_decide_eq_true hname))
  rw [summarize_of_raised hfiled hraised, List.filter_flatMap]
  simp only [hpass]
  cases τ <;> simp [passes, InternalType.all]

/-- Values about the same thing belong to one type, one row label and one field. -/
theorem Emits.eq_of_subject {t : ℚ} {σ τ : InternalType} {g g' : Grouping}
    {b b' : TimeBucket ProcessKey (Message α)} {c c' : String ×ₗ String} {i i' : ℕ}
    {field field' : String} {v w : Values α} (hv : Emits t σ g b c i field v)
    (hw : Emits t τ g' b' c' i' field' w) (h : subjectOf v = subjectOf w) :
    σ = τ ∧ c = c' ∧ field = field' := by
  rw [hv.subject, hw.subject] at h
  obtain ⟨hlabel, hfield⟩ := Prod.mk.inj h
  obtain rfl := Option.some.inj hfield
  refine ⟨?_, rowLabel_injective hlabel, rfl⟩
  by_contra hne
  exact disjoint_names hne field hv.mem_names hw.mem_names

/-- **A summary is free of repetitions** when its two groupings do not meet. -/
theorem pairwise_summarize {t : ℚ} {s : Receiver α} (hfiled : ∀ σ, Filed σ (s.buckets σ))
    (hraised : (summarize t s).1.raised = none) :
    (summarize t s).1.values.Pairwise (fun v w => subjectOf v ≠ subjectOf w) ↔
      ∀ τ, ∀ v ∈ passValues t τ .byProgname (s.swept t τ),
        ∀ w ∈ passValues t τ .byHostname (s.swept t τ), subjectOf v ≠ subjectOf w := by
  have hpass : ∀ τ g, (passValues t τ g (s.swept t τ)).Pairwise
      fun v w => subjectOf v ≠ subjectOf w :=
    fun τ g => pairwise_passValues (filed_swept hfiled t τ)
  -- different types never meet
  have hcross : InternalType.all.Pairwise fun σ τ => ∀ g g',
      ∀ v ∈ passValues t σ g (s.swept t σ), ∀ w ∈ passValues t τ g' (s.swept t τ),
        subjectOf v ≠ subjectOf w := by
    have hall : InternalType.all.Nodup := by decide
    refine hall.imp fun hne g g' v hv w hw heq => hne ?_
    obtain ⟨_, _, _, hv, -⟩ := (mem_passValues (filed_swept hfiled t _)).mp hv
    obtain ⟨_, _, _, hw, -⟩ := (mem_passValues (filed_swept hfiled t _)).mp hw
    exact (hv.eq_of_subject hw heq).1
  rw [summarize_of_raised hfiled hraised, List.pairwise_flatMap, passes, List.pairwise_flatMap]
  constructor
  · rintro ⟨-, hsame, -⟩ τ v hv w hw
    exact (List.pairwise_pair.mp (hsame τ (InternalType.mem_all τ))) v hv w hw
  · intro h
    refine ⟨fun p _ => hpass p.1 p.2, fun τ _ => List.pairwise_pair.mpr (h τ), ?_⟩
    refine hcross.imp fun {σ τ} hne => ?_
    have hgroup : ∀ {τ : InternalType} {p : InternalType × Grouping},
        p ∈ [(τ, Grouping.byProgname), (τ, .byHostname)] → p.1 = τ := by
      intro τ p hp
      rcases List.mem_pair.mp hp with rfl | rfl <;> rfl
    intro p hp q hq
    obtain rfl := hgroup hp
    obtain rfl := hgroup hq
    exact hne p.2 q.2

end Receiver

end SqlalchemyCollectd
