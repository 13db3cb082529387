import SqlalchemyCollectd.Lib.Noninterference
import SqlalchemyCollectd.Server.Aggregation

/-!
# SqlalchemyCollectd.Server.Isolation

When one host cannot disturb another.

All hosts share the clock of a bucket, so a host whose clock runs ahead makes the
bucket refuse the messages of every other host (`clock_ahead_interferes`). A host
whose clock is *not* ahead can do nothing: whatever it sends, deleting all of it
is not noticed by any other host (`isolation`). The proof relates the run with
the host to the run without it by what later times can still see of the other
hosts' records.
-/

namespace SqlalchemyCollectd

namespace Receiver

open TimeBucket Noninterference

variable {α : Type}

/-! ### What a host can see -/

/-- The timestamp of an operation. -/
def Op.time : Op α → ℚ
  | .setStats m => m.time
  | .summarize timestamp => timestamp

/-- The operation is a message from a host. -/
def Op.sentBy (host : String) : Op α → Bool
  | .setStats m => m.host = host
  | .summarize _ => false

/-- What concerns a host: whether its messages are accepted, whether summaries raise,
and what they report about it. -/
inductive Observation (α : Type)
  | message (accepted : Bool)
  | summary (raised : Bool) (values : List (Values α))
  deriving DecidableEq

variable [Add α] [Zero α] [One α]

/-- What a host sees of an operation. -/
def observe (host : String) (s : Receiver α) : Op α → Option (Observation α)
  | .setStats m =>
      if m.host = host then
        match setStats m s with
        | .ok _ _ => some (.message true)
        | .error _ _ => some (.message false)
      else none
  | .summarize timestamp =>
      some (.summary (summarize timestamp s).1.raised.isSome
        ((summarize timestamp s).1.values.filter fun v => v.host = some host))

/-- What a host sees of a run. -/
def view (host : String) (ops : List (Op α)) : List (Observation α) :=
  observations step (observe host) {} ops

/-- **A host whose clock is ahead silences the others.** -/
theorem clock_ahead_interferes :
    ∃ ops : List (Op ℤ),
      (ops.filter fun op => !op.sentBy "a").Pairwise (fun x y => x.time ≤ y.time) ∧
        view "b" ops ≠ view "b" (ops.filter fun op => !op.sentBy "a") :=
  ⟨[.setStats ⟨"sqlalchemy_pool", "1:aa", "sqlalchemy", "web", "a", 1000, 10, [1, 0, 1, 0, 1]⟩,
      .setStats ⟨"sqlalchemy_pool", "2:bb", "sqlalchemy", "web", "b", 100, 10, [1, 0, 1, 0, 1]⟩],
    by decide +kernel⟩

/-! ### Buckets that differ in one host -/

/-- From `t` on, two buckets look alike to every host but one. -/
structure Alike (host : String) (t : ℚ) (b b' : TimeBucket ProcessKey (Message α)) : Prop where
  within : b.Within t
  within' : b'.Within t
  visible : ∀ k : ProcessKey, k.hostname ≠ host → b.visible t k = b'.visible t k

section Alike

variable {host : String} {t timestamp interval : ℚ} {b b' : TimeBucket ProcessKey (Message α)}

omit [Add α] [Zero α] [One α] in
theorem Alike.visit (h : Alike host t b b') (ht : timestamp ≤ t) :
    Alike host t (b.visit timestamp none) (b'.visit timestamp none) where
  within := h.within.visit ht
  within' := h.within'.visit ht
  visible k hk := by rw [visible_visit ht, visible_visit ht, h.visible k hk]

omit [Add α] [Zero α] [One α] in
/-- Both buckets accept a put. -/
theorem Alike.put (h : Alike host t b b') (ht : 0 ≤ t) (htimestamp : timestamp ≤ t)
    (hinterval : 0 ≤ interval) (haccepts : b.Accepts timestamp interval)
    (haccepts' : b'.Accepts timestamp interval) (key : ProcessKey) (m : Message α) :
    Alike host t (b.putState timestamp interval key m) (b'.putState timestamp interval key m) where
  within := h.within.putState ht htimestamp hinterval key m
  within' := h.within'.putState ht htimestamp hinterval key m
  visible k hk := by
    by_cases hkey : k = key
    · rw [hkey, visible_putState_self haccepts, visible_putState_self haccepts']
    · rw [visible_putState_of_ne htimestamp _ hkey, visible_putState_of_ne htimestamp _ hkey,
        h.visible k hk]

omit [Add α] [Zero α] [One α] in
/-- Only the first bucket is put something, by the host. -/
theorem Alike.put_left (h : Alike host t b b') (ht : 0 ≤ t) (htimestamp : timestamp ≤ t)
    (hinterval : 0 ≤ interval) {key : ProcessKey} (hkey : key.hostname = host) (m : Message α) :
    Alike host t (b.putState timestamp interval key m) b' where
  within := h.within.putState ht htimestamp hinterval key m
  within' := h.within'
  visible k hk := by
    have hne : k ≠ key := fun hkk => hk (by rw [hkk, hkey])
    rw [visible_putState_of_ne htimestamp _ hne, h.visible k hk]

end Alike

/-! ### One step of the two runs -/

/-- From `t` on, two receivers look alike to every host but one. -/
def AlikeAt (host : String) (t : ℚ) (s s' : Receiver α) : Prop :=
  ∀ τ, Alike host t (s.buckets τ) (s'.buckets τ)

section Step

variable {host : String} {t : ℚ} {s s' : Receiver α} {m : Message α}

omit [Add α] [Zero α] [One α] in
theorem AlikeAt.storeState (h : AlikeAt host t s s') (ht : 0 ≤ t) (hm : m.time ≤ t)
    (hinterval : 0 ≤ m.interval) {τ : InternalType} (haccepts : s.AcceptsMessage τ m)
    (haccepts' : s'.AcceptsMessage τ m) : AlikeAt host t (s.storeState τ m) (s'.storeState τ m) := by
  intro σ
  rw [buckets_storeState, buckets_storeState]
  by_cases hσ : σ = τ
  · rw [if_pos hσ, if_pos hσ]
    exact (h σ).put ht hm (by positivity) (hσ ▸ haccepts) (hσ ▸ haccepts') _ _
  · rw [if_neg hσ, if_neg hσ]
    exact h σ

omit [Add α] [Zero α] in
theorem AlikeAt.countState (h : AlikeAt host t s s') (ht : 0 ≤ t) (hm : m.time ≤ t)
    (hinterval : 0 ≤ m.interval) (haccepts : s.AcceptsProcess m)
    (haccepts' : s'.AcceptsProcess m) : AlikeAt host t (s.countState m) (s'.countState m) := by
  intro σ
  rw [buckets_countState, buckets_countState]
  by_cases hσ : σ = .process
  · rw [if_pos hσ, if_pos hσ]
    exact (h σ).put ht hm (by positivity) (hσ ▸ haccepts) (hσ ▸ haccepts') _ _
  · rw [if_neg hσ, if_neg hσ]
    exact h σ

omit [Add α] [Zero α] in
/-- A message whose time no clock has passed is accepted, by both buckets. -/
theorem setStats_of_within {τ : InternalType} (hτ : InternalType.ofName? m.type = some τ)
    (hwithin : ∀ σ, (s.buckets σ).Within m.time) (hm : 0 ≤ m.time) (hinterval : 0 ≤ m.interval) :
    s.AcceptsMessage τ m ∧ (s.storeState τ m).AcceptsProcess m ∧ ∃ s', setStats m s = .ok () s' := by
  have haccepts : s.AcceptsMessage τ m := (hwithin τ).accepts_some hm (by positivity)
  have hprocess : (s.storeState τ m).AcceptsProcess m := by
    refine Within.accepts_some ?_ hm (by positivity)
    rw [buckets_storeState]
    split
    · exact (hwithin _).putState hm le_rfl (by positivity) _ _
    · exact hwithin _
  refine ⟨haccepts, hprocess, ?_⟩
  rw [setStats_eq hτ, if_neg (not_not_intro haccepts)]
  split_ifs
  · exact ⟨_, rfl⟩
  · exact ⟨_, rfl⟩

/-- A message of the host changes nothing that the others can see. -/
theorem AlikeAt.step_left (h : AlikeAt host t s s') (ht : 0 ≤ t) (hm : m.time ≤ t)
    (hinterval : 0 ≤ m.interval) (hhost : m.host = host) :
    AlikeAt host t (s.step (.setStats m)) s' := by
  cases hτ : InternalType.ofName? m.type with
  | none =>
      rw [step_setStats_unknown hτ]
      exact h
  | some τ =>
      have hstore : AlikeAt host t (s.storeState τ m) s' := by
        intro σ
        rw [buckets_storeState]
        split
        · exact (h σ).put_left ht hm (by positivity) hhost m
        · exact h σ
      rw [step_setStats hτ]
      split
      · intro σ
        rw [buckets_countState]
        split
        · exact (hstore σ).put_left ht hm (by positivity) hhost m.processRecord
        · exact hstore σ
      · exact hstore

/-- A message of another host is stored by both receivers. -/
theorem AlikeAt.step_message (h : AlikeAt host t s s') (hnow : AlikeAt host m.time s s')
    (hnonneg : 0 ≤ m.time) (hm : m.time ≤ t) (hinterval : 0 ≤ m.interval) :
    AlikeAt host t (s.step (.setStats m)) (s'.step (.setStats m)) := by
  have ht := hnonneg.trans hm
  cases hτ : InternalType.ofName? m.type with
  | none =>
      rw [step_setStats_unknown hτ, step_setStats_unknown hτ]
      exact h
  | some τ =>
      obtain ⟨haccepts, hprocess, -⟩ :=
        setStats_of_within hτ (fun σ => (hnow σ).within) hnonneg hinterval
      obtain ⟨haccepts', hprocess', -⟩ :=
        setStats_of_within hτ (fun σ => (hnow σ).within') hnonneg hinterval
      have hstore := h.storeState ht hm hinterval haccepts haccepts'
      rw [step_setStats hτ, step_setStats hτ]
      by_cases htoken : m.typeInstance = ""
      · rw [if_neg fun hc => hc.2 htoken, if_neg fun hc => hc.2 htoken]
        exact hstore
      · rw [if_pos ⟨haccepts, htoken⟩, if_pos ⟨haccepts', htoken⟩]
        exact hstore.countState ht hm hinterval hprocess hprocess'

omit [One α] in
/-- A summary that no clock has passed does not raise. -/
theorem summarize_of_within {timestamp : ℚ} (hwithin : ∀ σ, (s.buckets σ).Within timestamp)
    (hfiled : ∀ σ, Filed σ (s.buckets σ)) :
    summarize timestamp s =
      (⟨passes.flatMap fun p => passValues timestamp p.1 p.2 ((s.buckets p.1).visit timestamp none),
          none⟩,
        ⟨fun τ => (s.buckets τ).visit timestamp none⟩) :=
  summarize_eq (fun σ => (hwithin σ).accepts) (fun σ => ((hwithin σ).visit le_rfl).accepts) hfiled

/-- A summary leaves the receivers alike. -/
theorem AlikeAt.step_summary {timestamp : ℚ} (h : AlikeAt host t s s')
    (hnow : AlikeAt host timestamp s s') (ht : timestamp ≤ t)
    (hfiled : ∀ σ, Filed σ (s.buckets σ)) (hfiled' : ∀ σ, Filed σ (s'.buckets σ)) :
    AlikeAt host t (s.step (.summarize timestamp)) (s'.step (.summarize timestamp)) := by
  intro σ
  rw [step, step, summarize_of_within (fun σ => (hnow σ).within) hfiled,
    summarize_of_within (fun σ => (hnow σ).within') hfiled']
  exact (h σ).visit ht

/-- A summary says the same about every other host. -/
theorem AlikeAt.observe_summary {timestamp : ℚ} (hnow : AlikeAt host timestamp s s')
    (hfiled : ∀ σ, Filed σ (s.buckets σ)) (hfiled' : ∀ σ, Filed σ (s'.buckets σ))
    {other : String} (hother : other ≠ host) :
    observe other s (.summarize timestamp) = observe other s' (.summarize timestamp) := by
  have hrecords : ∀ σ (k : ProcessKey), k.hostname = other →
      ((s.buckets σ).visit timestamp none).bucket.get? k =
        ((s'.buckets σ).visit timestamp none).bucket.get? k := by
    intro σ k hk
    rw [get?_visit_eq_visible (hnow σ).within.accepts,
      get?_visit_eq_visible (hnow σ).within'.accepts, (hnow σ).visible k (hk ▸ hother)]
  unfold observe
  dsimp only
  rw [summarize_of_within (fun σ => (hnow σ).within) hfiled,
    summarize_of_within (fun σ => (hnow σ).within') hfiled']
  refine congrArg (fun values => some (Observation.summary false values)) ?_
  dsimp only
  rw [List.filter_flatMap, List.filter_flatMap]
  exact List.flatMap_congr fun p _ => passValues_host (filed_visit (hfiled p.1) timestamp none)
    (filed_visit (hfiled' p.1) timestamp none) (hrecords p.1)

/-- A message is accepted by both receivers, or of an unknown type for both. -/
theorem AlikeAt.observe_message (hnow : AlikeAt host m.time s s') (hnonneg : 0 ≤ m.time)
    (hinterval : 0 ≤ m.interval) (other : String) :
    observe other s (.setStats m) = observe other s' (.setStats m) := by
  unfold observe
  dsimp only
  by_cases hother : m.host = other
  · rw [if_pos hother, if_pos hother]
    cases hτ : InternalType.ofName? m.type with
    | none => rw [setStats_unknown hτ, setStats_unknown hτ]
    | some τ =>
        obtain ⟨-, -, next, hnext⟩ :=
          setStats_of_within hτ (fun σ => (hnow σ).within) hnonneg hinterval
        obtain ⟨-, -, next', hnext'⟩ :=
          setStats_of_within hτ (fun σ => (hnow σ).within') hnonneg hinterval
        rw [hnext, hnext']
  · rw [if_neg hother, if_neg hother]

end Step

/-! ### Whole runs -/

/-- Runs in which a host is never ahead of what the others still do: intervals are
non-negative, and every other operation has a non-negative timestamp that no
operation before it has passed. -/
structure NeverAhead (host : String) (ops : List (Op α)) : Prop where
  intervals : ∀ m, .setStats m ∈ ops → 0 ≤ m.interval
  nonneg : ∀ op ∈ ops, ¬op.sentBy host → 0 ≤ op.time
  ordered : ops.Pairwise fun before op => ¬op.sentBy host → before.time ≤ op.time

omit [Add α] [Zero α] [One α] in
theorem NeverAhead.tail {host : String} {op : Op α} {ops : List (Op α)}
    (h : NeverAhead host (op :: ops)) : NeverAhead host ops where
  intervals m hm := h.intervals m (List.mem_cons_of_mem op hm)
  nonneg o ho := h.nonneg o (List.mem_cons_of_mem op ho)
  ordered := (List.pairwise_cons.mp h.ordered).2

/-- The invariant of the two runs, relative to the operations still to come. -/
structure Related (host : String) (ops : List (Op α)) (s s' : Receiver α) : Prop where
  neverAhead : NeverAhead host ops
  filed : ∀ τ, Filed τ (s.buckets τ)
  filed' : ∀ τ, Filed τ (s'.buckets τ)
  alike : ∀ op ∈ ops, ¬op.sentBy host → AlikeAt host op.time s s'

theorem related_keep {host other : String} (hother : other ≠ host) {op : Op α}
    {ops : List (Op α)} {s s' : Receiver α} (hop : !op.sentBy host)
    (h : Related host (op :: ops) s s') :
    observe other s op = observe other s' op ∧ Related host ops (s.step op) (s'.step op) := by
  have hop : ¬op.sentBy host := by simpa using hop
  have hnow := h.alike op List.mem_cons_self hop
  have hnonneg := h.neverAhead.nonneg op List.mem_cons_self hop
  have hle : ∀ o ∈ ops, ¬o.sentBy host → op.time ≤ o.time :=
    (List.pairwise_cons.mp h.neverAhead.ordered).1
  have hlater : ∀ o ∈ ops, ¬o.sentBy host → AlikeAt host o.time s s' :=
    fun o ho => h.alike o (List.mem_cons_of_mem op ho)
  cases op with
  | summarize timestamp =>
      refine ⟨hnow.observe_summary h.filed h.filed' hother, h.neverAhead.tail,
        filed_step h.filed _, filed_step h.filed' _, fun o ho hsent => ?_⟩
      exact (hlater o ho hsent).step_summary hnow (hle o ho hsent) h.filed h.filed'
  | setStats m =>
      have hinterval := h.neverAhead.intervals m List.mem_cons_self
      refine ⟨hnow.observe_message hnonneg hinterval other, h.neverAhead.tail,
        filed_step h.filed _, filed_step h.filed' _, fun o ho hsent => ?_⟩
      exact (hlater o ho hsent).step_message hnow hnonneg (hle o ho hsent) hinterval

theorem related_drop {host other : String} (hother : other ≠ host) {op : Op α}
    {ops : List (Op α)} {s s' : Receiver α} (hop : ¬!op.sentBy host)
    (h : Related host (op :: ops) s s') :
    observe other s op = none ∧ Related host ops (s.step op) s' := by
  cases op with
  | summarize timestamp => exact absurd rfl hop
  | setStats m =>
      have hhost : m.host = host := by simpa [Op.sentBy] using hop
      refine ⟨if_neg fun hm => hother (hm.symm.trans hhost), h.neverAhead.tail,
        filed_step h.filed _, h.filed', fun o ho hsent => ?_⟩
      have hle := (List.pairwise_cons.mp h.neverAhead.ordered).1 o ho hsent
      have hnonneg := h.neverAhead.nonneg o (List.mem_cons_of_mem _ ho) hsent
      exact (h.alike o (List.mem_cons_of_mem _ ho) hsent).step_left hnonneg hle
        (h.neverAhead.intervals m List.mem_cons_self) hhost

/-- **A host that is never ahead cannot be noticed.** Deleting all of its messages
changes neither which messages of another host are accepted, nor whether a
summary raises, nor what a summary reports about the other host. -/
theorem isolation {host other : String} (hother : other ≠ host) {ops : List (Op α)}
    (h : NeverAhead host ops) :
    view other ops = view other (ops.filter fun op => !op.sentBy host) := by
  refine observations_filter (R := Related host) (related_keep hother) (related_drop hother) ?_
  refine ⟨h, fun τ k r hr => ?_, fun τ k r hr => ?_, fun op hop hsent τ => ?_⟩
  · cases hr
  · cases hr
  · exact ⟨within_fresh _, within_fresh _, fun _ _ => rfl⟩

/-- A host with a slow clock, between two operations of another. -/
def clockBehind : List (Op ℤ) :=
  [.setStats ⟨"sqlalchemy_pool", "2:bb", "sqlalchemy", "web", "b", 100, 10, [1, 0, 1, 0, 1]⟩,
    .setStats ⟨"sqlalchemy_pool", "1:aa", "sqlalchemy", "web", "a", -50, 300, [1, 0, 1, 0, 1]⟩,
    .summarize 101]

theorem isolation_clockBehind :
    view "b" clockBehind = view "b" (clockBehind.filter fun op => !op.sentBy "a") := by
  refine isolation (by decide) ⟨fun m hm => ?_, fun op hop hsent => ?_, ?_⟩
  · simp only [clockBehind, List.mem_cons, Op.setStats.injEq, reduceCtorEq, List.not_mem_nil,
      or_false] at hm
    rcases hm with rfl | rfl <;> norm_num
  · simp only [clockBehind, List.mem_cons, List.not_mem_nil, or_false] at hop
    rcases hop with rfl | rfl | rfl
    · norm_num [Op.time]
    · exact absurd rfl hsent
    · norm_num [Op.time]
  · simp [clockBehind, Op.sentBy, Op.time]
    norm_num

end Receiver

end SqlalchemyCollectd
