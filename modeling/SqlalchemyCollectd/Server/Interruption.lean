import SqlalchemyCollectd.Server.Generator

/-!
# SqlalchemyCollectd.Server.Interruption

Messages that arrive while a summary is in progress.

A pass takes its keys when it starts but reads each record only when its group is
due. A message that comes in between sweeps the bucket, and a key whose record is
gone is a `KeyError`; it also moves the clock and the interval of the bucket, and a
later pass that finds itself refused is a `ValueError`. `Harmless` says which
messages do no damage, and it is exact: left alone after a message, the summary
runs to its end if and only if the message was harmless.
-/

namespace SqlalchemyCollectd

open Transition

namespace Receiver

open TimeBucket

variable {α : Type}

/-! ### What a message takes away -/

/-- The message is stored in the bucket. -/
def StoredIn (σ : InternalType) (m : Message α) (s : Receiver α) : Prop :=
  ∃ τ ∈ InternalType.ofName? m.type, s.AcceptsMessage τ m ∧
    (σ = τ ∨ σ = .process ∧ m.typeInstance ≠ "" ∧ (s.storeState τ m).AcceptsProcess m)

instance [Add α] [Zero α] [One α] (σ : InternalType) (m : Message α) (s : Receiver α) :
    Decidable (StoredIn σ m s) :=
  inferInstanceAs (Decidable (∃ τ ∈ InternalType.ofName? m.type, _))

theorem storedIn_iff {σ τ : InternalType} {m : Message α} {s : Receiver α}
    (hτ : InternalType.ofName? m.type = some τ) :
    StoredIn σ m s ↔ s.AcceptsMessage τ m ∧
      (σ = τ ∨ σ = .process ∧ m.typeInstance ≠ "" ∧ (s.storeState τ m).AcceptsProcess m) := by
  unfold StoredIn
  rw [hτ]
  constructor
  · rintro ⟨_, ⟨⟩, h⟩
    exact h
  · exact fun h => ⟨τ, rfl, h⟩

theorem get?_storeState (τ σ : InternalType) (m : Message α) (s : Receiver α) (k : ProcessKey) :
    ((s.storeState τ m).buckets σ).bucket.get? k =
      if σ = τ ∧ s.AcceptsMessage τ m then
        if k = m.key then some ⟨m.time, m.interval * 2, m⟩
        else ((s.buckets σ).bucket.get? k).filter fun r => r.fresh m.time
      else (s.buckets σ).bucket.get? k := by
  rw [buckets_storeState]
  by_cases h : σ = τ
  · subst h
    rw [if_pos rfl, get?_putState]
    exact if_congr (and_iff_right rfl).symm rfl rfl
  · rw [if_neg h, if_neg fun h' => h h'.1]

theorem get?_countState [One α] (σ : InternalType) (m : Message α) (s : Receiver α)
    (k : ProcessKey) :
    ((s.countState m).buckets σ).bucket.get? k =
      if σ = .process ∧ s.AcceptsProcess m then
        if k = m.key then some ⟨m.time, m.interval * 5, m.processRecord⟩
        else ((s.buckets σ).bucket.get? k).filter fun r => r.fresh m.time
      else (s.buckets σ).bucket.get? k := by
  rw [buckets_countState]
  by_cases h : σ = .process
  · subst h
    rw [if_pos rfl, get?_putState]
    exact if_congr (and_iff_right rfl).symm rfl rfl
  · rw [if_neg h, if_neg fun h' => h h'.1]

/-- Two sweeps with the same clock take away as much as one. -/
theorem isSome_sweeps {P Q : Prop} [Decidable P] [Decidable Q] (now : ℚ)
    (o : Option (Record (Message α))) (first second : Record (Message α)) (k key : ProcessKey) :
    (if Q then
        if k = key then some second
        else (if P then if k = key then some first else o.filter fun r => r.fresh now
          else o).filter fun r => r.fresh now
      else if P then if k = key then some first else o.filter fun r => r.fresh now
        else o).isSome ↔
      (P ∨ Q → k ≠ key → ∀ r ∈ o, r.fresh now) ∧ o.isSome ∨ (P ∨ Q) ∧ k = key := by
  by_cases hk : k = key
  · by_cases hP : P <;> by_cases hQ : Q <;> simp [hk, hP, hQ]
  · cases o with
    | none => by_cases hP : P <;> by_cases hQ : Q <;> simp [hk, hP, hQ]
    | some r =>
        by_cases hfresh : r.fresh now
        · by_cases hP : P <;> by_cases hQ : Q <;> simp [hk, hP, hQ, hfresh]
        · by_cases hP : P <;> by_cases hQ : Q <;> simp [hk, hP, hQ, hfresh]

variable [Add α] [Zero α] [One α]

/-- **What a message takes away**: the stale records of the buckets it is stored in,
its own excepted. -/
theorem isSome_step_setStats (σ : InternalType) (m : Message α) (s : Receiver α)
    (k : ProcessKey) :
    (((s.step (.setStats m)).buckets σ).bucket.get? k).isSome ↔
      (StoredIn σ m s → k ≠ m.key → ∀ r ∈ (s.buckets σ).bucket.get? k, r.fresh m.time) ∧
        ((s.buckets σ).bucket.get? k).isSome ∨ StoredIn σ m s ∧ k = m.key := by
  cases hτ : InternalType.ofName? m.type with
  | none =>
      have hnot : ¬StoredIn σ m s := by
        rintro ⟨τ, h, -⟩
        rw [hτ] at h
        cases h
      rw [step_setStats_unknown hτ]
      simp [hnot]
  | some τ =>
      have hstored := storedIn_iff (σ := σ) (s := s) hτ
      rw [step_setStats hτ]
      by_cases hboth : s.AcceptsMessage τ m ∧ m.typeInstance ≠ ""
      · have hiff : StoredIn σ m s ↔ (σ = τ ∧ s.AcceptsMessage τ m) ∨
            (σ = .process ∧ (s.storeState τ m).AcceptsProcess m) := by
          rw [hstored]
          simp [hboth]
        rw [if_pos hboth, get?_countState, get?_storeState, isSome_sweeps, hiff]
      · have hiff : StoredIn σ m s ↔ (σ = τ ∧ s.AcceptsMessage τ m) ∨ False := by
          rw [hstored]
          grind
        rw [if_neg hboth, get?_storeState, hiff]
        exact isSome_sweeps (Q := False) m.time _ _ ⟨m.time, 0, m⟩ k m.key

end Receiver

/-! ### Harmless messages -/

namespace Generator

open Receiver TimeBucket

variable {α : Type} [Add α] [Zero α] [One α]

/-- The accesses to a bucket that a summary still has to make. -/
def accesses (st : Generator α) (σ : InternalType) : ℕ := (st.rest.map Prod.fst).count σ

/-- A message that does no damage. Of the records still to be read it makes none
stale, unless it replaces it; and after it every bucket accepts the accesses that
are still to be made. -/
structure Spares (t : ℚ) (st : Generator α) (m : Message α) : Prop where
  records : ∀ group ∈ st.unread, StoredIn group.type m st.receiver → ∀ k ∈ group.keys,
    k ≠ m.key → ∀ r ∈ (st.receiver.buckets group.type).bucket.get? k, r.fresh m.time
  clocks : ∀ σ, AcceptsTimes t (st.accesses σ) ((st.store m).receiver.buckets σ)

instance (t : ℚ) (st : Generator α) (m : Message α) : Decidable (st.Spares t m) :=
  decidable_of_iff
    ((∀ group ∈ st.unread, StoredIn group.type m st.receiver → ∀ k ∈ group.keys, k ≠ m.key →
        ∀ r ∈ (st.receiver.buckets group.type).bucket.get? k, r.fresh m.time) ∧
      ∀ σ ∈ InternalType.all, AcceptsTimes t (st.accesses σ) ((st.store m).receiver.buckets σ))
    ⟨fun h => ⟨h.1, fun σ => h.2 σ σ.mem_all⟩, fun h => ⟨h.1, fun σ _ => h.2 σ⟩⟩

/-- The side condition of a run. -/
def Harmless (t : ℚ) (st : Generator α) : Event α → Prop
  | .tick => True
  | .setStats m => st.Spares t m

instance (t : ℚ) (st : Generator α) : ∀ e, Decidable (st.Harmless t e)
  | .tick => .isTrue trivial
  | .setStats m => inferInstanceAs (Decidable (st.Spares t m))

/-- What the history of a summary says. The groups its passes found are those it
has read and those it still has to read; a group was read with all of its records;
and all values of the groups read are yielded, or about to be. -/
structure Reported (t : ℚ) (st : Generator α) : Prop where
  groups : st.started = st.read.map Prod.fst ++ st.unread
  records : ∀ x ∈ st.read, x.2.map Message.key = x.1.keys
  values : st.emitted ++ st.pending.values =
    st.read.flatMap fun x => rowValues t x.1.type x.1.grouping x.2

/-- A summary that comes to its end when it is left alone. -/
structure Intact (t : ℚ) (st : Generator α) : Prop where
  filed : ∀ σ, Filed σ (st.receiver.buckets σ)
  nonempty : ∀ group ∈ st.unread, group.keys ≠ []
  raised : st.raised = none
  pending : st.pending.raised = none
  present : ∀ group ∈ st.unread, ∀ k ∈ group.keys,
    ((st.receiver.buckets group.type).bucket.get? k).isSome
  clocks : ∀ σ, AcceptsTimes t (st.accesses σ) (st.receiver.buckets σ)

omit [One α] in
/-- What is left to do raises when a record is gone or a bucket refuses. -/
theorem remaining_raised {t : ℚ} {st : Generator α}
    (hfiled : ∀ σ, Filed σ (st.receiver.buckets σ)) (hkeys : ∀ group ∈ st.unread, group.keys ≠ []) :
    (st.remaining t).raised = none ↔ st.pending.raised = none ∧
      (∀ group ∈ st.unread, ∀ k ∈ group.keys,
        ((st.receiver.buckets group.type).bucket.get? k).isSome) ∧
      ∀ σ, AcceptsTimes t (st.accesses σ) (st.receiver.buckets σ) := by
  rw [remaining, Yielded.andThen_raised, Yielded.andThen_raised, Yielded.collect_raised,
    summarizePasses_raised st.rest hfiled]
  refine and_congr_right fun _ => and_congr_left fun _ => forall₂_congr fun group hgroup => ?_
  exact summarizeGroup_raised (hfiled group.type) (hkeys group hgroup)

omit [One α] in
theorem Intact.outcome {t : ℚ} {st : Generator α} (h : st.Intact t) :
    (st.outcome t).raised = none := by
  rw [Generator.outcome, h.raised]
  exact (remaining_raised h.filed h.nonempty).mpr ⟨h.pending, h.present, h.clocks⟩

/-- After a message, an intact summary still comes to its end if and only if the message
spares it. -/
theorem Intact.store_iff {t : ℚ} {st : Generator α} (h : st.Intact t) (m : Message α) :
    ((st.store m).outcome t).raised = none ↔ st.Spares t m := by
  have hfiled : ∀ σ, Filed σ ((st.store m).receiver.buckets σ) := filed_step h.filed (.setStats m)
  have houtcome : ((st.store m).outcome t).raised = ((st.store m).remaining t).raised := by
    rw [Generator.outcome, show (st.store m).raised = none from h.raised]
    rfl
  rw [houtcome, remaining_raised hfiled h.nonempty]
  have hpresent : (∀ group ∈ (st.store m).unread, ∀ k ∈ group.keys,
      (((st.store m).receiver.buckets group.type).bucket.get? k).isSome) ↔
        ∀ group ∈ st.unread, StoredIn group.type m st.receiver → ∀ k ∈ group.keys,
          k ≠ m.key → ∀ r ∈ (st.receiver.buckets group.type).bucket.get? k, r.fresh m.time := by
    refine forall₂_congr fun group hgroup => ⟨fun hnow hstored k hk hne r hr => ?_, fun hfresh k hk => ?_⟩
    · rcases (isSome_step_setStats ..).mp (hnow k hk) with ⟨hfresh, -⟩ | ⟨-, heq⟩
      · exact hfresh hstored hne r hr
      · exact absurd heq hne
    · refine (isSome_step_setStats ..).mpr (Or.inl ⟨?_, h.present group hgroup k hk⟩)
      exact fun hstored hne r hr => hfresh hstored k hk hne r hr
  constructor
  · rintro ⟨-, hrecords, hclocks⟩
    exact ⟨hpresent.mp hrecords, hclocks⟩
  · intro hspares
    exact ⟨h.pending, hpresent.mpr hspares.records, hspares.clocks⟩

theorem Intact.store {t : ℚ} {st : Generator α} (h : st.Intact t) {m : Message α}
    (hspares : st.Spares t m) : (st.store m).Intact t := by
  have hfiled : ∀ σ, Filed σ ((st.store m).receiver.buckets σ) := filed_step h.filed (.setStats m)
  have hraised := (h.store_iff m).mpr hspares
  rw [Generator.outcome, show (st.store m).raised = none from h.raised] at hraised
  obtain ⟨hpending, hpresent, hclocks⟩ := (remaining_raised hfiled h.nonempty).mp hraised
  exact ⟨hfiled, h.nonempty, h.raised, hpending, hpresent, hclocks⟩

omit [One α] in
/-- An intact generator neither raises in its next step nor loses its integrity. -/
theorem Intact.tick {t : ℚ} {st st' : Generator α} (h : st.Intact t)
    (htick : st.tick t = some st') : st'.Intact t := by
  obtain ⟨-, hcases⟩ := tick_cases htick
  obtain ⟨v, vs, hpending, rfl⟩ | ⟨e, hpending, rfl⟩ | ⟨group, unread, hpending, hunread, rfl⟩ |
    ⟨τ, g, rest, hpending, hunread, hrest, haccepts, rfl⟩ |
    ⟨τ, g, rest, hpending, hunread, hrest, haccepts, rfl⟩ := hcases
  · exact { h with }
  · -- a pending exception would contradict the invariant
    have hnone := h.pending
    rw [hpending] at hnone
    cases hnone
  · have hgroup : group ∈ st.unread := hunread ▸ List.mem_cons_self
    have hsub : ∀ group ∈ unread, group ∈ st.unread :=
      fun group hgroup => hunread ▸ List.mem_cons_of_mem _ hgroup
    exact { h with
      nonempty := fun group hgroup => h.nonempty group (hsub group hgroup)
      pending := (summarizeGroup_raised (h.filed group.type) (h.nonempty group hgroup)).mpr
        (h.present group hgroup)
      present := fun group hgroup => h.present group (hsub group hgroup) }
  · have hgroup : ∀ group ∈ (groupsOf g ((st.receiver.buckets τ).visit t none)).map
        (KeyGroup.mk τ g), group.type = τ ∧
          group.keys ∈ groupsOf g ((st.receiver.buckets τ).visit t none) := by
      intro group hgroup
      obtain ⟨keys, hkeys, rfl⟩ := List.mem_map.mp hgroup
      exact ⟨rfl, hkeys⟩
    refine { h with
      filed := filed_setBucket_visit h.filed τ t
      nonempty := fun group hg => (of_mem_groupsOf (hgroup group hg).2).1
      present := fun group hg k hk => ?_
      clocks := fun σ => ?_ }
    · obtain ⟨hτ, hkeys⟩ := hgroup group hg
      show (((st.receiver.setBucket τ _).buckets group.type).bucket.get? k).isSome
      rw [hτ, setBucket_same]
      exact (of_mem_groupsOf hkeys).2 k hk
    · have hσ := h.clocks σ
      rw [accesses, hrest, List.map_cons] at hσ
      show AcceptsTimes t ((rest.map Prod.fst).count σ) ((st.receiver.setBucket τ _).buckets σ)
      by_cases hne : σ = τ
      · subst hne
        rw [List.count_cons_self] at hσ
        rw [setBucket_same]
        exact hσ.2
      · rw [List.count_cons_of_ne (Ne.symm hne)] at hσ
        rw [setBucket_of_ne hne]
        exact hσ
  · -- neither would a refusal
    have hτ := h.clocks τ
    rw [accesses, hrest, List.map_cons, List.count_cons_self] at hτ
    exact absurd hτ.1 haccepts

omit [One α] in
theorem Reported.tick {t : ℚ} {st st' : Generator α} (h : st.Reported t) (hintact : st.Intact t)
    (htick : st.tick t = some st') : st'.Reported t := by
  obtain ⟨-, hcases⟩ := tick_cases htick
  obtain ⟨v, vs, hpending, rfl⟩ | ⟨e, hpending, rfl⟩ | ⟨group, unread, hpending, hunread, rfl⟩ |
    ⟨τ, g, rest, hpending, hunread, hrest, haccepts, rfl⟩ |
    ⟨τ, g, rest, hpending, hunread, hrest, haccepts, rfl⟩ := hcases
  · refine { h with values := ?_ }
    rw [← h.values, hpending]
    exact List.append_assoc ..
  · have hnone := hintact.pending
    rw [hpending] at hnone
    cases hnone
  · have hgroup : group ∈ st.unread := hunread ▸ List.mem_cons_self
    have hpresent := hintact.present group hgroup
    refine ⟨?_, ?_, ?_⟩
    · show st.started = (st.read ++ [(group, _)]).map Prod.fst ++ unread
      rw [h.groups, hunread, List.map_append, List.append_assoc]
      rfl
    · intro x hx
      rcases List.mem_append.mp hx with hx | hx
      · exact h.records x hx
      · rw [List.mem_singleton.mp hx]
        exact map_key_filterMap_getItem? (hintact.filed group.type) hpresent
    · show st.emitted ++ (readGroup t st.receiver group).values =
        (st.read ++ [(group, _)]).flatMap _
      have hread := h.values
      rw [hpending] at hread
      rw [readGroup, summarizeGroup_eq (hintact.filed group.type) (hintact.nonempty group hgroup)
        hpresent, List.flatMap_append, ← hread, List.flatMap_singleton]
      show _ = st.emitted ++ [] ++ _
      rw [List.append_nil]
  · refine { h with groups := ?_ }
    show st.started ++ _ = st.read.map Prod.fst ++ _
    rw [h.groups, hunread, List.append_nil]
  · have hτ := hintact.clocks τ
    rw [accesses, hrest, List.map_cons, List.count_cons_self] at hτ
    exact absurd hτ.1 haccepts

omit [Add α] [Zero α] [One α] in
theorem intact_start {t : ℚ} {s : Receiver α} (hfiled : ∀ σ, Filed σ (s.buckets σ))
    (haccepts : ∀ σ, AcceptsTimes t 2 (s.buckets σ)) : (start s).Intact t where
  filed := hfiled
  nonempty := fun group hgroup => by cases hgroup
  raised := rfl
  pending := rfl
  present := fun group hgroup => by cases hgroup
  clocks := fun σ => by
    have hcount : (start s).accesses σ = 2 := by cases σ <;> rfl
    rw [hcount]
    exact haccepts σ

/-- **Harmless messages do not disturb a summary.** Let every bucket accept the two accesses
of a summary. Then in every run in which all messages are harmless the generator
does not raise; when it is exhausted it has read every group that its passes found,
each with all of its records, and yielded all of their values. And after any further
message the summary, left alone, comes to its end exactly if that message is
harmless too. -/
theorem undisturbed {ops : List (Op α)} {t : ℚ}
    (haccepts : ∀ σ, AcceptsTimes t 2 ((run ops).buckets σ)) {is : List (Event α)}
    {st : Generator α} (hrun : Run (step t) (Harmless t) (start (run ops)) is st) :
    st.raised = none ∧ st.Reported t ∧
      (st.tick t = none → st.unread = [] ∧ st.pending = {}) ∧
      ∀ m, (st.store m).Finishes t ↔ st.Spares t m := by
  have hinvariant : st.Intact t ∧ st.Reported t := by
    refine hrun.invariant (P := fun _ st => st.Intact t ∧ st.Reported t) ?_ ?_
    · exact ⟨intact_start (filed_run ops) haccepts, rfl, fun x hx => (by cases hx), rfl⟩
    · intro is s e s' hs hok hstep
      cases e with
      | tick => exact ⟨hs.1.tick hstep, hs.2.tick hs.1 hstep⟩
      | setStats m =>
          obtain rfl : s.store m = s' := Option.some.inj hstep
          exact ⟨hs.1.store hok, { hs.2 with }⟩
  refine ⟨hinvariant.1.raised, hinvariant.2, fun hend => ?_,
    fun m => finishes_iff.trans (hinvariant.1.store_iff m)⟩
  obtain ⟨hpending, hunread, -⟩ := exhausted hend hinvariant.1.raised
  exact ⟨hunread, hpending⟩

/-- Two programs of one host, the first of them about to go stale. -/
def expiring : List (Op ℤ) :=
  [.setStats ⟨"sqlalchemy_pool", "1:aa", "sqlalchemy", "web", "a", 100, 10, [1, 1, 0, 0, 1]⟩,
    .setStats ⟨"sqlalchemy_pool", "2:bb", "sqlalchemy", "api", "a", 110, 10, [1, 0, 1, 0, 1]⟩]

/-- The next message of the second program. -/
def nextMessage (time : ℚ) : Message ℤ :=
  ⟨"sqlalchemy_pool", "2:bb", "sqlalchemy", "api", "a", time, 10, [1, 0, 1, 0, 1]⟩

theorem undisturbed_freshMessage : ∃ is st,
    Run (step 124) (Harmless 124) (start (run expiring)) is st ∧ .setStats (nextMessage 124) ∈ is ∧
      st.raised = none ∧ st.Reported 124 ∧
      (st.tick 124 = none → st.unread = [] ∧ st.pending = {}) ∧
      ∀ m, (st.store m).Finishes 124 ↔ st.Spares 124 m := by
  have hsome : (List.foldlM (guarded (step 124) (Harmless 124)) (start (run expiring))
      [.tick, .tick, .tick, .setStats (nextMessage 124), .tick]).isSome := by decide +kernel
  obtain ⟨st, hst⟩ := Option.isSome_iff_exists.mp hsome
  exact ⟨_, st, Run.of_exec hst, by decide,
    undisturbed (fun σ => by cases σ <;> decide +kernel) (Run.of_exec hst)⟩

/-- Messages at `t` or later, between resumptions. -/
def BetweenResumptions (t : ℚ) (st : Generator α) : Event α → Prop
  | .tick => True
  | .setStats m => st.suspended ∧ t ≤ m.time

instance (t : ℚ) (st : Generator α) : ∀ e, Decidable (st.BetweenResumptions t e)
  | .tick => .isTrue trivial
  | .setStats _ => inferInstanceAs (Decidable (_ ∧ _))

/-- **A record can disappear while a summary is in progress.** All buckets accept the
summary at 124; a message at 130 arrives after the first value of the first program
has been yielded; when the group of the other program is due, its record is gone. -/
theorem record_disappears : (∀ σ, AcceptsTimes 124 2 ((run expiring).buckets σ)) ∧
    ∃ st, Run (step 124) (BetweenResumptions 124) (start (run expiring))
      [.tick, .tick, .tick, .setStats (nextMessage 130), .tick, .tick, .tick, .tick, .tick, .tick]
      st ∧ st.raised = some .keyError := by
  refine ⟨fun σ => by cases σ <;> decide +kernel, ?_⟩
  have hraised : (List.foldlM (guarded (step 124) (BetweenResumptions 124)) (start (run expiring))
      [.tick, .tick, .tick, .setStats (nextMessage 130), .tick, .tick, .tick, .tick, .tick,
        .tick]).map Generator.raised = some (some .keyError) := by decide +kernel
  obtain ⟨st, hst, hkey⟩ := Option.map_eq_some_iff.mp hraised
  exact ⟨st, Run.of_exec hst, hkey⟩

end Generator

end SqlalchemyCollectd
