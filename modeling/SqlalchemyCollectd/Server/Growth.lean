import Mathlib.Algebra.Order.BigOperators.Group.Finset
import Mathlib.Algebra.Order.Ring.Int
import SqlalchemyCollectd.Lib.Transition
import SqlalchemyCollectd.Server.Steps

/-!
# SqlalchemyCollectd.Server.Growth

When a reported total does not go backwards.

Each process counts upwards, but a reported total is a sum over the processes that
have a record at the moment. `Grown` compares two buckets on the processes of a row:
whoever had a record has one with totals at least as high, and whoever has come in
has not brought negative totals. Then the sums have grown (`sum_grown`). `Keeps`
says which operations of the receiver let the bucket of the totals grow: those that
do not sweep a record out and do not replace it by an older one.
-/

namespace SqlalchemyCollectd

open Transition

/-! ### Sums -/

/-- A sum over more keys, of values that are no smaller where both sums have them and
not negative elsewhere. -/
theorem sum_map_le_sum_map {κ M : Type} [AddCommMonoid M] [PartialOrder M] [IsOrderedAddMonoid M]
    {l l' : List κ} {f f' : κ → M} (hl : l.Nodup) (hl' : l'.Nodup) (hsub : l ⊆ l') (hle : ∀ k ∈ l, f k ≤ f' k)
    (hnonneg : ∀ k ∈ l', k ∉ l → 0 ≤ f' k) : (l.map f).sum ≤ (l'.map f').sum := by
  classical
  rw [← List.sum_toFinset f hl, ← List.sum_toFinset f' hl']
  calc ∑ k ∈ l.toFinset, f k
    _ ≤ ∑ k ∈ l.toFinset, f' k := Finset.sum_le_sum fun k hk => hle k (List.mem_toFinset.mp hk)
    _ ≤ ∑ k ∈ l'.toFinset, f' k := by
        refine Finset.sum_le_sum_of_subset_of_nonneg (fun k hk => ?_) fun k hk hnot => ?_
        · exact List.mem_toFinset.mpr (hsub (List.mem_toFinset.mp hk))
        · exact hnonneg k (List.mem_toFinset.mp hk) fun h => hnot (List.mem_toFinset.mpr h)

/-! ### Counters -/

/-- One of the totals of a message. -/
def Message.total (m : Message Number) (i : ℕ) : ℤ :=
  match m.values[i]? with
  | some (.int n) => n
  | _ => 0

namespace Receiver

open TimeBucket

/-- The totals of every process are counters: four ints, none of which is smaller in
a later message of the process than in an earlier one. -/
structure Counters (ops : List (Op Number)) : Prop where
  ints : ∀ m, .setStats m ∈ ops → m.type = InternalType.totals.name →
    ∃ ns : List ℤ, ns.length = 4 ∧ m.values = ns.map .int
  mono : ∀ m m', .setStats m ∈ ops → .setStats m' ∈ ops → m.type = InternalType.totals.name →
    m'.type = InternalType.totals.name → m.key = m'.key → m.time ≤ m'.time →
      ∀ i, m.total i ≤ m'.total i

/-- The totals bucket of a process, for one of the totals; 0 if it has no record. -/
def totalAt (b : TimeBucket ProcessKey (Message Number)) (i : ℕ) (k : ProcessKey) : ℤ :=
  (b.getItem? k).elim 0 fun m => m.total i

/-- Seen from the processes of a row, the second bucket has grown out of the first. -/
structure Grown (row : ProcessKey → Prop) (b b' : TimeBucket ProcessKey (Message Number)) :
    Prop where
  kept : ∀ k, row k → ∀ r ∈ b.bucket.get? k, ∃ r' ∈ b'.bucket.get? k,
    ∀ i, r.value.total i ≤ r'.value.total i
  joined : ∀ k, row k → b.bucket.get? k = none → ∀ r' ∈ b'.bucket.get? k,
    ∀ i, 0 ≤ r'.value.total i

namespace Grown

theorem mono {row R : ProcessKey → Prop} {b b' : TimeBucket ProcessKey (Message Number)}
    (h : Grown row b b') (himp : ∀ k, R k → row k) : Grown R b b' where
  kept k hk := h.kept k (himp k hk)
  joined k hk := h.joined k (himp k hk)

variable {row : ProcessKey → Prop} {b b' b'' : TimeBucket ProcessKey (Message Number)}

theorem of_lookup (h : ∀ k, row k → b'.bucket.get? k = b.bucket.get? k) : Grown row b b' where
  kept k hk r hr := ⟨r, (h k hk).trans hr, fun _ => le_rfl⟩
  joined k hk hnone r' hr' := by
    rw [h k hk, hnone] at hr'
    cases hr'

theorem trans (h : Grown row b b') (h' : Grown row b' b'') : Grown row b b'' where
  kept k hk r hr := by
    obtain ⟨r', hr', hle⟩ := h.kept k hk r hr
    obtain ⟨r'', hr'', hle'⟩ := h'.kept k hk r' hr'
    exact ⟨r'', hr'', fun i => (hle i).trans (hle' i)⟩
  joined k hk hnone r'' hr'' i := by
    cases hget : b'.bucket.get? k with
    | none => exact h'.joined k hk hget r'' hr'' i
    | some r' =>
        -- came in before, grew since
        obtain ⟨s, hs, hle⟩ := h'.kept k hk r' hget
        obtain rfl : s = r'' := Option.some.inj (hs.symm.trans hr'')
        exact (h.joined k hk hnone r' hget i).trans (hle i)

end Grown

/-- **The totals of a row have grown** when its bucket has. -/
theorem sum_grown {g : Grouping} {c : String ×ₗ String}
    {b b' : TimeBucket ProcessKey (Message Number)} (h : Grown (fun k => g.row k = c) b b')
    (i : ℕ) :
    ((b.members g c).map (totalAt b i)).sum ≤ ((b'.members g c).map (totalAt b' i)).sum := by
  have hitem : ∀ {b : TimeBucket ProcessKey (Message Number)} {k r}, b.bucket.get? k = some r →
      totalAt b i k = r.value.total i := by
    intro b k r hr
    rw [totalAt, getItem?, hr]
    rfl
  refine sum_map_le_sum_map ((b.members_strict g c).imp ne_of_lt)
    ((b'.members_strict g c).imp ne_of_lt) ?_ ?_ ?_
  · intro k hk
    obtain ⟨hsome, hrow⟩ := mem_members.mp hk
    obtain ⟨r, hr⟩ := Option.isSome_iff_exists.mp hsome
    obtain ⟨r', hr', -⟩ := h.kept k hrow r hr
    exact mem_members.mpr ⟨Option.isSome_iff_exists.mpr ⟨r', hr'⟩, hrow⟩
  · intro k hk
    obtain ⟨hsome, hrow⟩ := mem_members.mp hk
    obtain ⟨r, hr⟩ := Option.isSome_iff_exists.mp hsome
    obtain ⟨r', hr', hle⟩ := h.kept k hrow r hr
    rw [hitem hr, hitem hr']
    exact hle i
  · intro k hk hnot
    obtain ⟨hsome, hrow⟩ := mem_members.mp hk
    obtain ⟨r', hr'⟩ := Option.isSome_iff_exists.mp hsome
    rw [hitem hr']
    refine h.joined k hrow ?_ r' hr' i
    exact Option.not_isSome_iff_eq_none.mp fun hsome => hnot (mem_members.mpr ⟨hsome, hrow⟩)

/-! ### Operations -/

/-- An operation that takes nothing away from the totals of the processes in a row. A
message that is stored leaves the records of all others fresh, is no older than the
record it replaces, and if it is the first of its process it is not negative; a
summary that gets to the totals finds their records fresh. -/
def Keeps (row : ProcessKey → Prop) (s : Receiver Number) : Op Number → Prop
  | .setStats m => m.type = InternalType.totals.name → s.AcceptsMessage .totals m →
      (∀ k, row k → k ≠ m.key → ∀ r ∈ (s.buckets .totals).bucket.get? k, r.fresh m.time) ∧
        (row m.key → (∀ r ∈ (s.buckets .totals).bucket.get? m.key, r.value.time ≤ m.time) ∧
          ((s.buckets .totals).bucket.get? m.key = none → ∀ i, 0 ≤ m.total i))
  | .summarize t => (s.buckets .pool).AcceptsTimes t 2 → (s.buckets .totals).Accepts t none →
      ∀ k, row k → ∀ r ∈ (s.buckets .totals).bucket.get? k, r.fresh t

/-- The records of the totals bucket are messages that were sent. -/
def SentBy (ops : List (Op Number)) (s : Receiver Number) : Prop :=
  (s.buckets .totals).Forall fun k r =>
    .setStats r.value ∈ ops ∧ r.value.type = InternalType.totals.name ∧ r.value.key = k

theorem SentBy.mono {ops ops' : List (Op Number)} {s : Receiver Number} (h : SentBy ops s)
    (hsub : ops ⊆ ops') : SentBy ops' s :=
  fun k r hr => ⟨hsub (h k r hr).1, (h k r hr).2⟩

theorem sentBy_run (ops : List (Op Number)) : SentBy ops (run ops) := by
  have hforall : ((run ops).buckets .totals).Forall fun k r => InternalType.totals = .totals →
      .setStats r.value ∈ ops ∧ r.value.type = InternalType.totals.name ∧ r.value.key = k := by
    refine forall_run (P := fun τ k r => τ = .totals → .setStats r.value ∈ ops ∧
      r.value.type = InternalType.totals.name ∧ r.value.key = k) ?_ ?_ .totals
    · rintro m τ hm hτ rfl
      exact ⟨hm, (InternalType.name_of_ofName? hτ).symm, rfl⟩
    · intro m _ h
      cases h
  exact fun k r hr => hforall k r hr rfl

/-- A summary that the pool bucket refuses touches no other bucket. -/
theorem summarize_unreached {t : ℚ} {s : Receiver Number} (hfiled : ∀ σ, Filed σ (s.buckets σ))
    (hrefused : ¬(s.buckets .pool).AcceptsTimes t 2) {σ : InternalType} (hσ : σ ≠ .pool) :
    (summarize t s).2.buckets σ = s.buckets σ := by
  obtain ⟨ps, hps⟩ : ∃ ps, passes = (.pool, .byProgname) :: (.pool, .byHostname) :: ps := ⟨_, rfl⟩
  rw [summarize, hps]
  by_cases hfirst : (s.buckets .pool).Accepts t none
  · have hsecond : ¬((s.setBucket .pool ((s.buckets .pool).visit t none)).buckets .pool).Accepts
        t none := by
      rw [setBucket_same]
      exact fun h => hrefused ⟨hfirst, h, trivial⟩
    rw [summarizePasses, summarizePass_of_accepts hfirst (filed_visit (hfiled .pool) t none)]
    dsimp only
    rw [summarizePasses, summarizePass_of_not_accepts hsecond]
    show ((s.setBucket .pool _).setBucket .pool _).buckets σ = s.buckets σ
    rw [setBucket_of_ne hσ, setBucket_of_ne hσ]
  · rw [summarizePasses, summarizePass_of_not_accepts hfirst]
    exact setBucket_of_ne hσ _ _

theorem grown_summarize {row : ProcessKey → Prop} {t : ℚ} {s : Receiver Number}
    (hfiled : ∀ σ, Filed σ (s.buckets σ)) (hkeeps : Keeps row s (.summarize t)) :
    Grown row (s.buckets .totals) ((s.step (.summarize t)).buckets .totals) := by
  refine Grown.of_lookup fun k hk => ?_
  show ((summarize t s).2.buckets .totals).bucket.get? k = _
  by_cases hreached : (s.buckets .pool).AcceptsTimes t 2
  · by_cases haccepts : (s.buckets .totals).Accepts t none
    · -- visits at `t` sweep nothing of the row
      have hfresh := hkeeps hreached haccepts k hk
      refine summarize_preserves
        (P := fun σ b => σ = .totals →
          b.bucket.get? k = (s.buckets .totals).bucket.get? k) ?_ (fun σ hσ => by rw [hσ]) _ rfl
      intro σ b hb hσ
      rw [get?_visit, hb hσ]
      split
      · exact Record.filter_fresh hfresh
      · rfl
    · have hsame : (summarize t s).2.buckets .totals = s.buckets .totals := by
        refine summarize_preserves (P := fun σ b => σ = .totals → b = s.buckets .totals) ?_
          (fun σ hσ => by rw [hσ]) .totals rfl
        intro σ b hb hσ
        rw [hb hσ, visit, if_neg haccepts]
        rfl
      rw [hsame]
  · rw [summarize_unreached hfiled hreached (by decide)]

theorem grown_setStats {row : ProcessKey → Prop} {ops : List (Op Number)} (hcounters : Counters ops)
    {s : Receiver Number} (hsent : SentBy ops s) {m : Message Number} (hm : .setStats m ∈ ops)
    (hkeeps : Keeps row s (.setStats m)) :
    Grown row (s.buckets .totals) ((s.step (.setStats m)).buckets .totals) := by
  cases hτ : InternalType.ofName? m.type with
  | none =>
      rw [step_setStats_unknown hτ]
      exact .of_lookup fun _ _ => rfl
  | some τ =>
      rw [buckets_step_setStats hτ s (by decide)]
      by_cases htotals : InternalType.totals = τ
      · subst htotals
        have htype : m.type = InternalType.totals.name := (InternalType.name_of_ofName? hτ).symm
        rw [if_pos rfl]
        by_cases haccepts : s.AcceptsMessage .totals m
        · obtain ⟨hothers, hself⟩ := hkeeps htype haccepts
          have haccepts : (s.buckets .totals).Accepts m.time (m.interval * 2 : ℚ) := haccepts
          have hget := get?_putState m.time (m.interval * 2) m.key m (s.buckets .totals)
          simp only [if_pos haccepts] at hget
          refine ⟨fun k hk r hr => ?_, fun k hk hnone r' hr' => ?_⟩
          · rw [hget]
            by_cases hkey : k = m.key
            · -- replaced by a later message of the process
              rw [if_pos hkey]
              obtain ⟨hmem, hrtype, hrkey⟩ := hsent k r hr
              have htime := (hself (hkey ▸ hk)).1 r (hkey ▸ hr)
              exact ⟨_, rfl,
                hcounters.mono r.value m hmem hm hrtype htype (hrkey.trans hkey) htime⟩
            · rw [if_neg hkey]
              exact ⟨r, Option.filter_eq_some_iff.mpr ⟨hr, hothers k hk hkey r hr⟩, fun _ => le_rfl⟩
          · rw [hget] at hr'
            by_cases hkey : k = m.key
            · rw [if_pos hkey] at hr'
              rw [← Option.some.inj hr']
              exact (hself (hkey ▸ hk)).2 (hkey ▸ hnone)
            · rw [if_neg hkey, hnone] at hr'
              cases hr'
        · have hrefused : ¬(s.buckets .totals).Accepts m.time (m.interval * 2 : ℚ) := haccepts
          exact .of_lookup fun k _ => by rw [get?_putState, if_neg hrefused]
      · rw [if_neg htotals]
        exact .of_lookup fun _ _ => rfl

/-- **Totals grow over every run of operations that keep them.** -/
theorem grown_run {row : ProcessKey → Prop} {before after : List (Op Number)}
    (hcounters : Counters (before ++ after))
    (hkeeps : ∀ pre op, pre ++ [op] <+: after → Keeps row (run (before ++ pre)) op) :
    Grown row ((run before).buckets .totals) ((run (before ++ after)).buckets .totals) := by
  have hprefix : ∀ pre, pre <+: after →
      Grown row ((run before).buckets .totals) ((run (before ++ pre)).buckets .totals) := by
    intro pre
    induction pre using List.reverseRecOn with
    | nil =>
        intro _
        rw [List.append_nil]
        exact .of_lookup fun _ _ => rfl
    | append_singleton pre op ih =>
        intro hpre
        refine (ih ((List.prefix_append pre [op]).trans hpre)).trans ?_
        have hmem : op ∈ before ++ after :=
          List.mem_append_right _ (hpre.subset (List.mem_append_right _ List.mem_cons_self))
        have hsent : SentBy (before ++ after) (run (before ++ pre)) :=
          (sentBy_run _).mono (((List.prefix_append_right_inj before).mpr
            ((List.prefix_append pre [op]).trans hpre)).subset)
        rw [← List.append_assoc, run_append]
        cases op with
        | setStats m => exact grown_setStats hcounters hsent hmem (hkeeps pre _ hpre)
        | summarize t => exact grown_summarize (filed_run _) (hkeeps pre _ hpre)
  exact hprefix after List.prefix_rfl

/-! ### Reported totals -/

/-- What a summary reports about totals, as sums over the records of a row. -/
theorem exists_sum_of_mem_passValues {t : ℚ} {g : Grouping}
    {b : TimeBucket ProcessKey (Message Number)} (hfiled : Filed .totals b)
    (hints : ∀ k r, b.bucket.get? k = some r → ∃ ns : List ℤ, r.value.values = ns.map .int)
    {v : Values Number} (hv : v ∈ passValues t .totals g b) :
    ∃ c ∈ b.rows g, labelOf v = rowLabel c ∧ ∃ i field,
      InternalType.totals.toType.names[i]? = some field ∧ v.typeInstance = some field ∧
        v.values = [.int ((b.members g c).map (totalAt b i)).sum] := by
  obtain ⟨c, hc, hv⟩ := List.mem_flatMap.mp hv
  obtain ⟨i, field, xs, hfield, hxs, -, hinstance, -, hvalues⟩ := exists_field_of_mem_rowValues hv
  refine ⟨c, hc, labelOf_of_mem hfiled hv, i, field, hfield, hinstance, ?_⟩
  obtain ⟨hall, rfl⟩ := eq_filterMap_of_mapM hxs
  have hmember : ∀ k ∈ b.members g c,
      ((b.getItem? k).bind fun m : Message Number => m.values[i]?) = some (.int (totalAt b i k)) := by
    intro k hk
    obtain ⟨r, hr⟩ := Option.isSome_iff_exists.mp (mem_members.mp hk).1
    have hitem : b.getItem? k = some r.value := by rw [getItem?, hr]; rfl
    have hsome := hall r.value (List.mem_filterMap.mpr ⟨k, hk, hitem⟩)
    obtain ⟨ns, hns⟩ := hints k r hr
    rw [hitem, Option.bind_some, totalAt, hitem, Option.elim_some, Message.total]
    rw [hns, List.getElem?_map] at hsome ⊢
    cases hn : ns[i]? with
    | none => rw [hn] at hsome; cases hsome
    | some n => rfl
  rw [hvalues, rowRecords, List.filterMap_filterMap, List.filterMap_congr hmember]
  show [pySum ((b.members g c).filterMap (some ∘ Number.int ∘ totalAt b i))] = _
  rw [List.filterMap_eq_map, ← List.map_map, pySum_int]

/-- The processes behind a label. -/
def InRow (host program : String) (k : ProcessKey) : Prop :=
  k.hostname = host ∧ (program = "host" ∨ k.progname = program)

theorem inRow_of_row {g : Grouping} {host program : String} {c : String ×ₗ String}
    (hc : rowLabel c = (some host, some program)) {k : ProcessKey} (hk : g.row k = c) :
    InRow host program k := by
  subst hk
  obtain ⟨hhost, hprogram⟩ := Prod.mk.inj hc
  refine ⟨Option.some.inj hhost, ?_⟩
  cases g with
  | byProgname => exact Or.inr (Option.some.inj hprogram)
  | byHostname => exact Or.inl (Option.some.inj hprogram).symm

/-- Where no program is called `"host"`, a label belongs to one of the two groupings. -/
theorem grouping_unique {ops : List (Op Number)} {s : Receiver Number} (hsent : SentBy ops s)
    {host program : String}
    (hname : program = "host" → ∀ m, .setStats m ∈ ops → m.host = host → m.pluginInstance ≠ "host")
    {g : Grouping} {c : String ×ₗ String} (hc : c ∈ (s.buckets .totals).rows g)
    (hlabel : rowLabel c = (some host, some program)) :
    g = if program = "host" then .byHostname else .byProgname := by
  obtain ⟨k, hk, rfl⟩ := mem_rows.mp hc
  obtain ⟨hhost, hprogram⟩ := Prod.mk.inj hlabel
  obtain ⟨r, hr⟩ := Option.isSome_iff_exists.mp hk
  obtain ⟨hmem, -, rfl⟩ := hsent k r hr
  cases g with
  | byHostname => exact (if_pos (Option.some.inj hprogram).symm).symm
  | byProgname =>
      split
      · rename_i hhostname
        exact absurd ((Option.some.inj hprogram).trans hhostname)
          (hname hhostname r.value hmem (Option.some.inj hhost))
      · rfl

theorem mem_totals_of_derive {t : ℚ} {s : Receiver Number} (hfiled : ∀ σ, Filed σ (s.buckets σ))
    {v : Values Number} (hv : v ∈ (summarize t s).1.values) (htype : v.type = some "derive") :
    ∃ g, v ∈ passValues t .totals g ((s.step (.summarize t)).buckets .totals) := by
  obtain ⟨⟨τ, g⟩, -, hv⟩ := mem_summarizePasses hfiled hv
  refine ⟨g, ?_⟩
  obtain ⟨c, _, hrow⟩ := List.mem_flatMap.mp hv
  obtain ⟨_, _, _, -, -, hname, -⟩ := exists_field_of_mem_rowValues hrow
  have hτ : τ = .totals :=
    InternalType.eq_totals_of_derive (Option.some.inj (hname.symm.trans htype))
  exact hτ ▸ hv

/-- **Reported totals grow** from one summary to another, if every operation from the
first to the second keeps the totals of the row. -/
theorem totals_le {before between : List (Op Number)} {t₁ t₂ : ℚ} {host program : String}
    (hcounters : Counters (before ++ [Op.summarize t₁] ++ (between ++ [Op.summarize t₂])))
    (hname : program = "host" → ∀ m,
      Op.setStats m ∈ before ++ [Op.summarize t₁] ++ (between ++ [Op.summarize t₂]) →
        m.host = host → m.pluginInstance ≠ "host")
    (hkeeps : ∀ pre op, pre ++ [op] <+: between ++ [Op.summarize t₂] →
      Keeps (InRow host program) (run (before ++ [Op.summarize t₁] ++ pre)) op)
    {v₁ v₂ : Values Number} (hv₁ : v₁ ∈ (summarize t₁ (run before)).1.values)
    (hv₂ : v₂ ∈ (summarize t₂ (run (before ++ [Op.summarize t₁] ++ between))).1.values)
    (htype₁ : v₁.type = some "derive") (htype₂ : v₂.type = some "derive")
    (hlabel₁ : labelOf v₁ = (some host, some program))
    (hlabel₂ : labelOf v₂ = (some host, some program))
    (hinstance : v₁.typeInstance = v₂.typeInstance) :
    ∃ x₁ x₂ : ℤ, v₁.values = [.int x₁] ∧ v₂.values = [.int x₂] ∧ x₁ ≤ x₂ := by
  obtain ⟨g₁, hv₁⟩ := mem_totals_of_derive (filed_run _) hv₁ htype₁
  obtain ⟨g₂, hv₂⟩ := mem_totals_of_derive (filed_run _) hv₂ htype₂
  rw [← run_append] at hv₁ hv₂
  rw [List.append_assoc] at hv₂
  have hsent₁ : SentBy _ (run (before ++ [.summarize t₁])) :=
    (sentBy_run _).mono (List.subset_append_left _ (between ++ [.summarize t₂]))
  have hsent₂ := sentBy_run (before ++ [.summarize t₁] ++ (between ++ [.summarize t₂]))
  have hints : ∀ {s : Receiver Number},
      SentBy (before ++ [.summarize t₁] ++ (between ++ [.summarize t₂])) s →
        ∀ k r, (s.buckets .totals).bucket.get? k = some r →
          ∃ ns : List ℤ, r.value.values = ns.map .int := by
    intro s hsent k r hr
    obtain ⟨ns, -, hns⟩ := hcounters.ints r.value (hsent k r hr).1 (hsent k r hr).2.1
    exact ⟨ns, hns⟩
  obtain ⟨c₁, hc₁, hrow₁, i₁, field₁, hfield₁, hinstance₁, hvalues₁⟩ :=
    exists_sum_of_mem_passValues (filed_run _ _) (hints hsent₁) hv₁
  obtain ⟨c₂, hc₂, hrow₂, i₂, field₂, hfield₂, hinstance₂, hvalues₂⟩ :=
    exists_sum_of_mem_passValues (filed_run _ _) (hints hsent₂) hv₂
  rw [hrow₁] at hlabel₁
  rw [hrow₂] at hlabel₂
  -- the two values are the same field of the same row
  obtain rfl : c₁ = c₂ := rowLabel_injective (hlabel₁.trans hlabel₂.symm)
  obtain rfl : g₁ = g₂ := (grouping_unique hsent₁ hname hc₁ hlabel₁).trans
    (grouping_unique hsent₂ hname hc₂ hlabel₂).symm
  obtain rfl : i₁ = i₂ := by
    have hfield : field₁ = field₂ := by simpa [hinstance₁, hinstance₂] using hinstance
    refine (List.getElem?_inj (List.getElem?_eq_some_iff.mp hfield₁).1 (by decide)).mp ?_
    rw [hfield₁, hfield₂, hfield]
  have hgrown := (grown_run hcounters hkeeps).mono
    (R := fun k => g₁.row k = c₁) fun k hk => inRow_of_row hlabel₁ hk
  exact ⟨_, _, hvalues₁, hvalues₂, sum_grown hgrown i₁⟩

end Receiver

end SqlalchemyCollectd
