import Mathlib.Algebra.BigOperators.Group.Finset.Basic
import Mathlib.Data.Finset.Card
import SqlalchemyCollectd.Server.Aggregation
import SqlalchemyCollectd.Server.Emission
import SqlalchemyCollectd.Server.Rejection

/-!
# SqlalchemyCollectd.Server.Numprocs

How many processes a summary counts.

The record that counts a process is written by both types of message, after the
bucket of the type has accepted the message, and is kept for longer than the
message itself. Processes are independent streams as in
`SqlalchemyCollectd.Server.Aggregation`, except that here the two types of message
of a process are one stream. Seen from a time `t` that nothing has passed, the
record of a process is that of its last message that was heard, that is, not
rejected (`visible_process`): a message that the bucket of its type refuses does not
touch the process bucket, and one that the process bucket refuses is stale at `t`
for the count as well.

A message can be late for its own bucket and still within the longer window of the
count. Its process is then not counted (`numprocs_misses_late`).
-/

namespace SqlalchemyCollectd

namespace Receiver

open TimeBucket

variable {α : Type}

/-- Runs of messages of the two types of the client. A process, whatever the type of
message, keeps its interval and does not go back in time; nothing happens after `t`. -/
structure Regular (t : ℚ) (ops : List (Op α)) : Prop where
  types : ∀ m, .setStats m ∈ ops →
    m.type = InternalType.pool.name ∨ m.type = InternalType.totals.name
  tokens : ∀ m, .setStats m ∈ ops → m.typeInstance ≠ ""
  times : ∀ m, .setStats m ∈ ops → m.time ≤ t
  intervals : ∀ m, .setStats m ∈ ops → ∃ n : ℕ, 0 < n ∧ m.interval = (n : ℚ)
  summaries : ∀ timestamp, .summarize timestamp ∈ ops → timestamp ≤ t
  steady : ops.Pairwise fun a b => ∀ m m', a = .setStats m → b = .setStats m' →
    m.key = m'.key → m.time ≤ m'.time ∧ m.interval = m'.interval

theorem Regular.init {t : ℚ} {ops : List (Op α)} {op : Op α} (h : Regular t (ops ++ [op])) :
    Regular t ops where
  types m hm := h.types m (List.mem_append_left _ hm)
  tokens m hm := h.tokens m (List.mem_append_left _ hm)
  times m hm := h.times m (List.mem_append_left _ hm)
  intervals m hm := h.intervals m (List.mem_append_left _ hm)
  summaries s hs := h.summaries s (List.mem_append_left _ hs)
  steady := (List.pairwise_append.mp h.steady).1

/-- The window of a process record, for an interval in whole seconds. -/
theorem window_five (n : ℕ) : window ((n : ℚ) * 5) = 6 * n := by
  have hfactor : (n : ℚ) * 5 * intervalFactor = ((6 * n : ℤ) : ℚ) := by
    rw [intervalFactor]
    push_cast
    ring
  rw [window, hfactor, pyInt_intCast]

variable [Add α] [Zero α] [One α]

/-! ### Messages that are heard -/

/-- The messages of a process that are heard, in order of arrival. -/
def heardOf (k : ProcessKey) (ops : List (Op α)) : List (Message α) :=
  (heard ops).filterMap fun
    | .setStats m => if m.key = k then some m else none
    | .summarize _ => none

theorem heard_append (ops : List (Op α)) (op : Op α) :
    heard (ops ++ [op]) = heard ops ++ if (run ops).rejects op then [] else [op] := by
  unfold heard
  rw [Transition.kept_append]
  rfl

theorem heardOf_append_summarize (k : ProcessKey) (ops : List (Op α)) (timestamp : ℚ) :
    heardOf k (ops ++ [.summarize timestamp]) = heardOf k ops := by
  simp [heardOf, heard_append, rejects]

theorem heardOf_append_setStats (k : ProcessKey) (ops : List (Op α)) (m : Message α) :
    heardOf k (ops ++ [.setStats m]) = heardOf k ops ++
      if (run ops).rejects (.setStats m) then [] else if m.key = k then [m] else [] := by
  unfold heardOf
  rw [heard_append, List.filterMap_append]
  split
  · rfl
  · split <;> simp_all

theorem mem_heardOf {k : ProcessKey} {ops : List (Op α)} {m : Message α} :
    m ∈ heardOf k ops ↔ .setStats m ∈ heard ops ∧ m.key = k := by
  unfold heardOf
  rw [List.mem_filterMap]
  constructor
  · intro ⟨op, hop, hm⟩
    cases op with
    | summarize timestamp => cases hm
    | setStats m' =>
        dsimp only at hm
        split at hm
        · rename_i hkey
          rw [← Option.some.inj hm]
          exact ⟨hop, hkey⟩
        · cases hm
  · intro ⟨hop, hkey⟩
    exact ⟨_, hop, if_pos hkey⟩

theorem mem_of_mem_heard {ops : List (Op α)} {op : Op α} (h : op ∈ heard ops) : op ∈ ops :=
  Transition.mem_of_mem_kept h

/-! ### The record of a process -/

/-- What a message leaves in the process bucket. -/
def countOf (m : Message α) : Record (Message α) := ⟨m.time, m.interval * 5, m.processRecord⟩

section Process

variable {m : Message α} {τ : InternalType} (hτ : InternalType.ofName? m.type = some τ)
  (hne : τ ≠ .process) (htoken : m.typeInstance ≠ "")

include hτ hne htoken in
theorem process_step (s : Receiver α) :
    (s.step (.setStats m)).buckets .process =
      if s.AcceptsMessage τ m then
        (s.buckets .process).putState m.time (m.interval * 5) m.key m.processRecord
      else s.buckets .process := by
  have hother : (s.storeState τ m).buckets .process = s.buckets .process :=
    setBucket_of_ne (Ne.symm hne) ..
  rw [step_setStats hτ]
  by_cases hmessage : s.AcceptsMessage τ m
  · rw [if_pos (And.intro hmessage htoken), if_pos hmessage, buckets_countState, if_pos rfl, hother]
  · rw [if_neg fun h => hmessage h.1, if_neg hmessage, hother]

omit [Add α] [Zero α] in
include hτ hne htoken in
theorem rejects_iff_refused (s : Receiver α) :
    s.rejects (.setStats m) ↔ ¬s.AcceptsMessage τ m ∨ ¬s.AcceptsProcess m := by
  have hother : (s.storeState τ m).AcceptsProcess m ↔ s.AcceptsProcess m := by
    rw [AcceptsProcess, AcceptsProcess, storeState, setBucket_of_ne (Ne.symm hne)]
  unfold rejects
  dsimp only
  rw [setStats_eq hτ, if_neg htoken]
  simp only [hother]
  by_cases hmessage : s.AcceptsMessage τ m
  · by_cases hprocess : s.AcceptsProcess m
    · simp [hmessage, hprocess]
    · simp [hmessage, hprocess, refusal]
  · simp [hmessage, refusal]

end Process

omit [Add α] [Zero α] [One α] in
/-- The type of a message of a regular run. -/
theorem Regular.exists_type {t : ℚ} {ops : List (Op α)} (h : Regular t ops) {m : Message α}
    (hm : .setStats m ∈ ops) : ∃ τ, InternalType.ofName? m.type = some τ ∧ τ ≠ .process := by
  rcases h.types m hm with htype | htype
  · exact ⟨.pool, by rw [htype]; exact InternalType.ofName?_name .pool, by decide⟩
  · exact ⟨.totals, by rw [htype]; exact InternalType.ofName?_name .totals, by decide⟩

/-- **What can be seen of a process in the process bucket** is the count of its last
message that was heard. -/
theorem visible_process {t : ℚ} {ops : List (Op α)} (h : Regular t ops) (k : ProcessKey) :
    ((run ops).buckets .process).visible t k =
      ((heardOf k ops).getLast?.map countOf).filter fun r => r.fresh t := by
  induction ops using List.reverseRecOn with
  | nil => rfl
  | append_singleton ops op ih =>
      have ih := ih h.init
      rw [run_append]
      cases op with
      | summarize timestamp =>
          have hle := h.summaries timestamp (List.mem_append_right _ List.mem_cons_self)
          rw [heardOf_append_summarize, ← ih]
          exact summarize_preserves
            (P := fun σ b => b.visible t k = ((run ops).buckets σ).visible t k)
            (fun σ b hb => (visible_visit hle none b k).trans hb) (fun σ => rfl) .process
      | setStats m =>
          have hmem : Op.setStats m ∈ ops ++ [.setStats m] :=
            List.mem_append_right _ List.mem_cons_self
          obtain ⟨τ, hτ, hne⟩ := h.exists_type hmem
          have htoken := h.tokens m hmem
          have hrejects := rejects_iff_refused hτ hne htoken (run ops)
          rw [heardOf_append_setStats, process_step hτ hne htoken]
          by_cases hmessage : (run ops).AcceptsMessage τ m
          · rw [if_pos hmessage]
            by_cases hprocess : (run ops).AcceptsProcess m
            · rw [if_neg (mt hrejects.mp (by simp [hmessage, hprocess]))]
              by_cases hkey : m.key = k
              · subst hkey
                rw [if_pos rfl, List.getLast?_concat]
                exact visible_putState_self hprocess t m.key m.processRecord
              · rw [if_neg hkey, List.append_nil, ← ih]
                exact visible_putState_of_ne (h.times m hmem) _ (Ne.symm hkey) _ _
            · rw [if_pos (hrejects.mpr (Or.inr hprocess)), List.append_nil, ← ih]
              exact visible_putState_of_not_accepts hprocess t _ _ _
          · rw [if_neg hmessage, if_pos (hrejects.mpr (Or.inl hmessage)), List.append_nil, ih]

/-! ### Live processes -/

/-- The processes that are live at `t`: a message of theirs was heard that is not older
than the window of the count. -/
def live (t : ℚ) (ops : List (Op α)) : Finset ProcessKey :=
  ((heard ops).filterMap fun
    | .setStats m => if t - 6 * m.interval ≤ m.time then some m.key else none
    | .summarize _ => none).toFinset

/-- The process tokens of a host and program that are live at `t`. -/
def tokens (t : ℚ) (ops : List (Op α)) (host prog : String) : Finset String :=
  ((live t ops).filter fun k => k.hostname = host ∧ k.progname = prog).image ProcessKey.token

/-- The programs of a host that have a live process. -/
def programs (t : ℚ) (ops : List (Op α)) (host : String) : Finset String :=
  ((live t ops).filter fun k => k.hostname = host).image ProcessKey.progname

theorem mem_live {t : ℚ} {ops : List (Op α)} {k : ProcessKey} :
    k ∈ live t ops ↔ ∃ m ∈ heardOf k ops, t - 6 * m.interval ≤ m.time := by
  unfold live
  rw [List.mem_toFinset, List.mem_filterMap]
  constructor
  · intro ⟨op, hop, hk⟩
    cases op with
    | summarize timestamp => cases hk
    | setStats m =>
        dsimp only at hk
        split at hk
        · rename_i hle
          exact ⟨m, mem_heardOf.mpr ⟨hop, Option.some.inj hk⟩, hle⟩
        · cases hk
  · intro ⟨m, hm, hle⟩
    obtain ⟨hop, rfl⟩ := mem_heardOf.mp hm
    exact ⟨_, hop, if_pos hle⟩

/-- The last message of a process that is heard is as late as any. -/
theorem Regular.le_last {t : ℚ} {ops : List (Op α)} (h : Regular t ops) {k : ProcessKey}
    {m last : Message α} (hm : m ∈ heardOf k ops) (hlast : (heardOf k ops).getLast? = some last) :
    m.time ≤ last.time ∧ m.interval = last.interval := by
  have hsteady : (heardOf k ops).Pairwise fun m m' => m.time ≤ m'.time ∧ m.interval = m'.interval := by
    refine (h.steady.sublist (Transition.kept_sublist _ ops)).filterMap _ ?_
    intro a b hab m hm m' hm'
    cases a with
    | summarize timestamp => cases hm
    | setStats x =>
        cases b with
        | summarize timestamp => cases hm'
        | setStats y =>
            simp only [Option.ite_none_right_eq_some, Option.some.injEq] at hm hm'
            obtain ⟨hx, rfl⟩ := hm
            obtain ⟨hy, rfl⟩ := hm'
            exact hab _ _ rfl rfl (hx.trans hy.symm)
  obtain ⟨init, hsplit⟩ := List.getLast?_eq_some_iff.mp hlast
  rw [hsplit] at hm hsteady
  rcases List.mem_append.mp hm with hm | hm
  · exact (List.pairwise_append.mp hsteady).2.2 m hm last List.mem_cons_self
  · rw [List.mem_singleton.mp hm]
    exact ⟨le_rfl, rfl⟩

/-- The processes that can be seen from `t` are the live ones. -/
theorem visible_isSome {t : ℚ} {ops : List (Op α)} (h : Regular t ops) (k : ProcessKey) :
    (((run ops).buckets .process).visible t k).isSome ↔ k ∈ live t ops := by
  rw [visible_process h, mem_live]
  -- for an interval in whole seconds the window is what it is meant to be
  have hfresh : ∀ m ∈ heardOf k ops, (countOf m).fresh t ↔ t - 6 * m.interval ≤ m.time := by
    intro m hm
    obtain ⟨n, -, hn⟩ := h.intervals m (mem_of_mem_heard (mem_heardOf.mp hm).1)
    rw [Record.fresh_iff, countOf, hn, window_five]
    push_cast
    rfl
  cases hlast : (heardOf k ops).getLast? with
  | none =>
      rw [List.getLast?_eq_none_iff.mp hlast]
      simp
  | some last =>
      have hmem := List.mem_of_getLast? hlast
      rw [Option.map_some, Option.filter_some]
      constructor
      · intro hsome
        refine ⟨last, hmem, (hfresh last hmem).mp ?_⟩
        by_contra hstale
        simp [hstale] at hsome
      · intro ⟨m, hm, hle⟩
        obtain ⟨htime, hinterval⟩ := h.le_last hm hlast
        have hlive : t - 6 * last.interval ≤ last.time := by
          rw [← hinterval]
          exact hle.trans htime
        rw [if_pos ((hfresh last hmem).mpr hlive)]
        rfl

/-! ### The rows of the count -/

section Rows

variable {t : ℚ} {g : Grouping} {b : TimeBucket ProcessKey (Message Number)}
  {c : String ×ₗ String}

/-- A row of records that count one process each has one value, their number. -/
theorem rowValues_process (hfiled : Filed .process b)
    (hone : ∀ k r, b.bucket.get? k = some r → r.value.values = [1]) (hc : c ∈ b.rows g) :
    (rowValues t .process g (b.rowRecords g c)).map Values.values =
      [[.int (b.members g c).length]] := by
  have hvalues : ∀ m ∈ b.rowRecords g c, m.values = [1] := by
    intro m hm
    obtain ⟨k, -, hitem⟩ := List.mem_filterMap.mp hm
    obtain ⟨r, hr, rfl⟩ := Option.map_eq_some_iff.mp hitem
    exact hone k r hr
  have hlength : (b.rowRecords g c).length = (b.members g c).length := by
    have hkeys : ((b.members g c).filterMap b.getItem?).map Message.key = b.members g c :=
      map_key_filterMap_getItem? hfiled fun k hk => (mem_members.mp hk).1
    rw [← List.length_map Message.key]
    exact congrArg List.length hkeys
  have hsum : pySum ((b.rowRecords g c).filterMap fun m => m.values[0]?) =
      .int (b.members g c).length := by
    have hones : (b.rowRecords g c).filterMap (fun m : Message Number => m.values[0]?) =
        (List.replicate (b.members g c).length (1 : ℤ)).map Number.int := by
      rw [List.filterMap_congr (g := fun _ => some (1 : Number)) fun m hm => by rw [hvalues m hm]; rfl,
        ← hlength]
      simp [List.filterMap_eq_map', List.map_const']
    rw [hones, pySum_int, List.sum_replicate]
    simp
  obtain ⟨v, hv, hemits⟩ := exists_emits (t := t) (i := 0) hfiled hc rfl
    fun m hm => by rw [hvalues m hm]; rfl
  have hrow : rowValues t .process g (b.rowRecords g c) = [v] := by
    -- the type has one field
    refine List.ext_getElem? fun i => ?_
    cases i with
    | zero => exact hv
    | succ i =>
        obtain ⟨first, rest, hrecs⟩ := exists_rowRecords hc
        rw [hrecs, getElem?_rowValues]
        rfl
  rw [hrow, List.map_singleton, hemits.values, hsum]

/-- What a pass over such records says of a row. -/
theorem passValues_process (hfiled : Filed .process b)
    (hone : ∀ k r, b.bucket.get? k = some r → r.value.values = [1]) :
    ((passValues t .process g b).filter fun v => labelOf v = rowLabel c).map Values.values =
      if b.members g c = [] then [] else [[.int (b.members g c).length]] := by
  by_cases hc : c ∈ b.rows g
  · rw [if_neg (members_ne_nil hc), passValues_filter hfiled hc, rowValues_process hfiled hone hc]
  · have hempty : b.members g c = [] := by
      refine List.eq_nil_iff_forall_not_mem.mpr fun k hk => hc ?_
      exact mem_rows.mpr ⟨k, mem_members.mp hk⟩
    have hnone : (passValues t .process g b).filter (fun v => labelOf v = rowLabel c) = [] := by
      refine List.filter_eq_nil_iff.mpr fun v hv hlabel => hc ?_
      obtain ⟨c', hc', hlabel'⟩ := exists_row_of_mem_passValues hfiled hv
      rwa [← rowLabel_injective (hlabel'.symm.trans (of_decide_eq_true hlabel))]
    rw [if_pos hempty, hnone, List.map_nil]

/-- Only the passes over the process bucket speak of `numprocs`. -/
theorem filter_numprocs {s : Receiver Number} (hfiled : ∀ σ, Filed σ (s.buckets σ))
    (hraised : (summarize t s).1.raised = none) :
    (summarize t s).1.values.filter (fun v => v.typeInstance = some "numprocs") =
      passValues t .process .byProgname (s.swept t .process) ++
        passValues t .process .byHostname (s.swept t .process) := by
  have hname : ∀ v : Values Number, OfType .process v ↔ v.typeInstance = some "numprocs" := by
    intro v
    show (∃ field ∈ ["numprocs"], v.typeInstance = some field) ↔ _
    simp
  rw [← filter_ofType hfiled hraised]
  simp only [hname]

end Rows

/-! ### The count -/

section Count

variable {t : ℚ} {ops : List (Op Number)}

/-- The keys of a row are the live processes of the row. -/
theorem toFinset_members (h : Regular t ops)
    (haccepts : ((run ops).buckets .process).Accepts t none) (g : Grouping) (c : String ×ₗ String) :
    (((run ops).swept t .process).members g c).toFinset =
      (live t ops).filter fun k => g.row k = c := by
  ext k
  rw [List.mem_toFinset, mem_members, swept, get?_visit_eq_visible haccepts, visible_isSome h,
    Finset.mem_filter]

theorem length_members (h : Regular t ops)
    (haccepts : ((run ops).buckets .process).Accepts t none) (g : Grouping) (c : String ×ₗ String) :
    (((run ops).swept t .process).members g c).length =
      ((live t ops).filter fun k => g.row k = c).card := by
  rw [← toFinset_members h haccepts, List.toFinset_card_of_nodup]
  exact (members_strict g _ c).imp ne_of_lt

theorem members_eq_nil_iff (h : Regular t ops)
    (haccepts : ((run ops).buckets .process).Accepts t none) (g : Grouping) (c : String ×ₗ String) :
    ((run ops).swept t .process).members g c = [] ↔
      ((live t ops).filter fun k => g.row k = c) = ∅ := by
  rw [← toFinset_members h haccepts, List.toFinset_eq_empty_iff]

/-- Within a host and program, a process is its token. -/
theorem card_tokens (host prog : String) :
    (tokens t ops host prog).card =
      ((live t ops).filter fun k => k.hostname = host ∧ k.progname = prog).card := by
  refine Finset.card_image_of_injOn fun k hk k' hk' htoken => ?_
  obtain ⟨-, hhost, hprog⟩ := Finset.mem_filter.mp hk
  obtain ⟨-, hhost', hprog'⟩ := Finset.mem_filter.mp hk'
  exact ProcessKey.ext (hhost.trans hhost'.symm) (hprog.trans hprog'.symm) htoken

/-- The processes of a host, program by program. -/
theorem card_host (host : String) :
    ((live t ops).filter fun k => k.hostname = host).card =
      ∑ prog ∈ programs t ops host, (tokens t ops host prog).card := by
  rw [Finset.card_eq_sum_card_image ProcessKey.progname]
  refine Finset.sum_congr rfl fun prog _ => ?_
  rw [card_tokens, Finset.filter_filter]

theorem row_byProgname_iff {k : ProcessKey} {host prog : String} :
    Grouping.byProgname.row k = toLex (host, prog) ↔ k.hostname = host ∧ k.progname = prog := by
  rw [Grouping.row, toLex_inj, Prod.mk.injEq]
  rfl

theorem row_byHostname_iff {k : ProcessKey} {host : String} :
    Grouping.byHostname.row k = toLex (host, "host") ↔ k.hostname = host := by
  rw [Grouping.row, toLex_inj, Prod.mk.injEq]
  exact and_iff_left rfl

/-- Every record of the process bucket counts one process. -/
theorem one_process (h : Regular t ops) {k : ProcessKey} {r : Record (Message Number)}
    (hr : ((run ops).swept t .process).bucket.get? k = some r) : r.value.values = [1] := by
  have hforall : ∀ σ, ((run ops).buckets σ).Forall
      fun _ r => σ = .process → r.value.values = [1] := by
    refine forall_run (P := fun σ _ r => σ = .process → r.value.values = [1]) ?_ fun _ _ _ => rfl
    intro m τ hm hτ hprocess
    obtain ⟨σ, hσ, hne⟩ := h.exists_type hm
    exact absurd (Option.some.inj (hσ.symm.trans hτ)) (hprocess ▸ hne)
  exact (hforall .process).visit t none k r hr rfl

/-- A pass counts the live processes of each row. -/
theorem passValues_live (h : Regular t ops) (haccepts : ((run ops).buckets .process).Accepts t none)
    (g : Grouping) (c : String ×ₗ String) :
    ((passValues t .process g ((run ops).swept t .process)).filter
        fun v => labelOf v = rowLabel c).map Values.values =
      if ((live t ops).filter fun k => g.row k = c) = ∅ then []
      else [[.int ((live t ops).filter fun k => g.row k = c).card]] := by
  rw [passValues_process (filed_swept (filed_run ops) t .process) fun k r hr => one_process h hr,
    length_members h haccepts]
  exact if_congr (members_eq_nil_iff h haccepts g c) rfl rfl

/-- **How many processes a summary counts.** -/
theorem numprocs_counted (h : Regular t ops) :
    ((∀ m, .setStats m ∈ ops → 0 ≤ m.time) → (summarize t (run ops)).1.raised = none) ∧
    ((summarize t (run ops)).1.raised = none → ∃ byProgram byHost : List (Values Number),
      (summarize t (run ops)).1.values.filter (fun v => v.typeInstance = some "numprocs") =
        byProgram ++ byHost ∧
      (∀ v ∈ byProgram, ∃ host prog, labelOf v = (some host, some prog)) ∧
      (∀ host prog,
        (byProgram.filter fun v => labelOf v = (some host, some prog)).map Values.values =
          if tokens t ops host prog = ∅ then []
          else [[.int (tokens t ops host prog).card]]) ∧
      (∀ v ∈ byHost, ∃ host, labelOf v = (some host, some "host")) ∧
      ∀ host, (byHost.filter fun v => labelOf v = (some host, some "host")).map Values.values =
          if programs t ops host = ∅ then []
          else [[.int (∑ prog ∈ programs t ops host, (tokens t ops host prog).card : ℕ)]]) := by
  have hfiled := filed_run ops
  have hlabel : ∀ g, ∀ v ∈ passValues t .process g ((run ops).swept t .process),
      ∃ k, labelOf v = rowLabel (g.row k) := by
    intro g v hv
    obtain ⟨c, hc, hv⟩ := exists_row_of_mem_passValues (filed_swept hfiled t .process) hv
    obtain ⟨k, -, rfl⟩ := mem_rows.mp hc
    exact ⟨k, hv⟩
  constructor
  · intro hnonneg
    have hpositive : ∀ m, .setStats m ∈ ops → 0 < m.interval := by
      intro m hm
      obtain ⟨n, hn, hinterval⟩ := h.intervals m hm
      rw [hinterval]
      exact_mod_cast hn
    have hwithin := (reaches_run ops).within (fun m hm => ⟨hnonneg m hm, h.times m hm⟩) hpositive
      h.summaries
    exact (acceptsTimes_of_summarize hfiled).mpr fun σ =>
      ⟨(hwithin σ).accepts, ((hwithin σ).visit le_rfl).accepts, trivial⟩
  · intro hraised
    have haccepts := ((acceptsTimes_of_summarize hfiled).mp hraised .process).1
    refine ⟨_, _, filter_numprocs hfiled hraised, fun v hv => ?_, fun host prog => ?_,
      fun v hv => ?_, fun host => ?_⟩
    · obtain ⟨k, hk⟩ := hlabel .byProgname v hv
      exact ⟨k.hostname, k.progname, hk⟩
    · have hrow := passValues_live h haccepts .byProgname (toLex (host, prog))
      simp only [row_byProgname_iff] at hrow
      refine hrow.trans ?_
      rw [card_tokens]
      exact if_congr Finset.image_eq_empty.symm rfl rfl
    · obtain ⟨k, hk⟩ := hlabel .byHostname v hv
      exact ⟨k.hostname, hk⟩
    · have hrow := passValues_live h haccepts .byHostname (toLex (host, "host"))
      simp only [row_byHostname_iff] at hrow
      refine hrow.trans ?_
      rw [card_host]
      exact if_congr Finset.image_eq_empty.symm rfl rfl

/-- Two processes of one program; the second is late for its own bucket. -/
def lateProcess : List (Op Number) :=
  [.setStats ⟨"sqlalchemy_pool", "1:aa", "sqlalchemy", "web", "h1", 1000, 10,
      [.int 1, .int 0, .int 1, .int 0, .int 1]⟩,
    .setStats ⟨"sqlalchemy_pool", "2:bb", "sqlalchemy", "web", "h1", 970, 10,
      [.int 1, .int 0, .int 1, .int 0, .int 1]⟩]

theorem regular_lateProcess : Regular 1000 lateProcess := by
  have hmem : ∀ m : Message Number, .setStats m ∈ lateProcess →
      m = ⟨"sqlalchemy_pool", "1:aa", "sqlalchemy", "web", "h1", 1000, 10,
          [.int 1, .int 0, .int 1, .int 0, .int 1]⟩ ∨
        m = ⟨"sqlalchemy_pool", "2:bb", "sqlalchemy", "web", "h1", 970, 10,
          [.int 1, .int 0, .int 1, .int 0, .int 1]⟩ :=
    fun m hm => by simpa [lateProcess] using hm
  exact {
    types := fun m hm => by rcases hmem m hm with rfl | rfl <;> decide
    tokens := fun m hm => by rcases hmem m hm with rfl | rfl <;> decide
    times := fun m hm => by rcases hmem m hm with rfl | rfl <;> norm_num
    intervals := fun m hm => ⟨10, by rcases hmem m hm with rfl | rfl <;> norm_num⟩
    summaries := fun s hs => by simp [lateProcess] at hs
    steady := List.pairwise_pair.mpr fun m m' hm hm' hkey => by
      rw [← Op.setStats.inj hm, ← Op.setStats.inj hm'] at hkey
      exact absurd (congrArg ProcessKey.token hkey) (by decide) }

/-- The program and its host have one process that was heard. -/
theorem numprocs_counted_lateProcess :
    (summarize 1000 (run lateProcess)).1.raised = none ∧
      ∃ byProgram byHost : List (Values Number),
        (summarize 1000 (run lateProcess)).1.values.filter
          (fun v => v.typeInstance = some "numprocs") = byProgram ++ byHost ∧
        (byProgram.filter fun v => labelOf v = (some "h1", some "web")).map Values.values =
          [[.int 1]] ∧
        (byHost.filter fun v => labelOf v = (some "h1", some "host")).map Values.values =
          [[.int 1]] := by
  have hraised : (summarize 1000 (run lateProcess)).1.raised = none := by
    refine (numprocs_counted regular_lateProcess).1 fun m hm => ?_
    have htime : m.time = 1000 ∨ m.time = 970 := by
      simp only [lateProcess, List.mem_cons, Op.setStats.injEq, List.not_mem_nil, or_false] at hm
      rcases hm with rfl | rfl
      · exact Or.inl rfl
      · exact Or.inr rfl
    rcases htime with htime | htime <;> rw [htime] <;> norm_num
  have htokens : tokens 1000 lateProcess "h1" "web" = {"1:aa"} := by decide +kernel
  have hprograms : programs 1000 lateProcess "h1" = {"web"} := by decide +kernel
  obtain ⟨byProgram, byHost, hsplit, -, hprogram, -, hhost⟩ :=
    (numprocs_counted regular_lateProcess).2 hraised
  refine ⟨hraised, byProgram, byHost, hsplit, ?_, ?_⟩
  · rw [hprogram, htokens, if_neg (Finset.singleton_ne_empty _), Finset.card_singleton]
    rfl
  · rw [hhost, hprograms, if_neg (Finset.singleton_ne_empty _), Finset.sum_singleton, htokens,
      Finset.card_singleton]
    rfl

/-- The process tokens of a host and program that sent a message not older than the
window of the count, whether it was heard or not. -/
def sent (t : ℚ) (ops : List (Op Number)) (host prog : String) : Finset String :=
  (ops.filterMap fun
    | .setStats m =>
        if m.host = host ∧ m.pluginInstance = prog ∧ t - 6 * m.interval ≤ m.time then
          some m.typeInstance
        else none
    | .summarize _ => none).toFinset

/-- Both processes have sent a message within the window, and one is counted. -/
theorem numprocs_misses_late :
    Regular 1000 lateProcess ∧ (sent 1000 lateProcess "h1" "web").card = 2 ∧
      ((summarize 1000 (run lateProcess)).1.values.filter fun v =>
        v.typeInstance = some "numprocs" ∧ labelOf v = (some "h1", some "web")).map Values.values =
          [[.int 1]] :=
  ⟨regular_lateProcess, by decide +kernel, by decide +kernel⟩

end Count

end Receiver

end SqlalchemyCollectd
