import Mathlib.Data.List.Count
import SqlalchemyCollectd.Server.Summary

/-!
# SqlalchemyCollectd.Server.Steps

What one operation does to the buckets, and what every run keeps.

`setStats` puts a message into the bucket of its type and, if that is accepted
and the message has a process token, a record into the process bucket
(`setStats_eq`). `summarize` only visits buckets (`visits_summarize`), so whatever a
visit preserves it preserves (`summarize_preserves`). With these two, an invariant of
the buckets is an invariant of the receiver, whether a summary is taken as a whole or
messages come in between its visits (`Reaches`).
-/

namespace SqlalchemyCollectd

namespace Receiver

open TimeBucket

variable {α : Type}

/-! ### Storing a message -/

/-- The receiver after the access of `_set_stats` to the bucket of the type. -/
def storeState (τ : InternalType) (m : Message α) (s : Receiver α) : Receiver α :=
  s.setBucket τ ((s.buckets τ).putState m.time (m.interval * 2) m.key m)

/-- The receiver after the access of `_set_stats` to the process bucket. -/
def countState [One α] (m : Message α) (s : Receiver α) : Receiver α :=
  s.setBucket .process
    ((s.buckets .process).putState m.time (m.interval * 5) m.key m.processRecord)

/-- The bucket of its type accepts a message. -/
def AcceptsMessage (τ : InternalType) (m : Message α) (s : Receiver α) : Prop :=
  (s.buckets τ).Accepts m.time (m.interval * 2 : ℚ)

/-- The process bucket accepts a message. -/
def AcceptsProcess (m : Message α) (s : Receiver α) : Prop :=
  (s.buckets .process).Accepts m.time (m.interval * 5 : ℚ)

instance (τ : InternalType) (m : Message α) (s : Receiver α) : Decidable (s.AcceptsMessage τ m) :=
  inferInstanceAs (Decidable (TimeBucket.Accepts ..))

instance (m : Message α) (s : Receiver α) : Decidable (s.AcceptsProcess m) :=
  inferInstanceAs (Decidable (TimeBucket.Accepts ..))

theorem setBucket_setBucket (τ : InternalType) (b b' : TimeBucket ProcessKey (Message α))
    (s : Receiver α) : (s.setBucket τ b).setBucket τ b' = s.setBucket τ b' :=
  congrArg Receiver.mk (Function.update_idem ..)

/-- `get_data` and an assignment are a `put`. -/
theorem onBucket_put (τ : InternalType) (timestamp interval : ℚ) (key : ProcessKey)
    (m : Message α) (s : Receiver α) :
    (do onBucket τ (getData timestamp (some interval))
        onBucket τ (setItem timestamp interval key m) : EStateM PyError (Receiver α) Unit) s =
      if (s.buckets τ).Accepts timestamp interval then
        .ok () (s.setBucket τ ((s.buckets τ).putState timestamp interval key m))
      else .error ((s.buckets τ).refusal timestamp interval)
        (s.setBucket τ ((s.buckets τ).putState timestamp interval key m)) := by
  by_cases h : (s.buckets τ).Accepts timestamp interval
  · simp only [bind, EStateM.bind, onBucket, getData, getBucket_eq, if_pos h, setItem, putState,
      setBucket_same, setBucket_setBucket]
  · simp only [bind, EStateM.bind, onBucket, getData, getBucket_eq, if_neg h, putState]

/-- The bucket of its type after a message. -/
theorem buckets_storeState (τ σ : InternalType) (m : Message α) (s : Receiver α) :
    (s.storeState τ m).buckets σ =
      if σ = τ then (s.buckets σ).putState m.time (m.interval * 2) m.key m else s.buckets σ := by
  by_cases h : σ = τ
  · rw [if_pos h, h]
    exact setBucket_same ..
  · rw [if_neg h]
    exact setBucket_of_ne h ..

theorem buckets_countState [One α] (σ : InternalType) (m : Message α) (s : Receiver α) :
    (s.countState m).buckets σ =
      if σ = .process then
        (s.buckets σ).putState m.time (m.interval * 5) m.key m.processRecord
      else s.buckets σ := by
  by_cases h : σ = .process
  · rw [if_pos h, h]
    exact setBucket_same ..
  · rw [if_neg h]
    exact setBucket_of_ne h ..

theorem filed_visit {τ : InternalType} {b : TimeBucket ProcessKey (Message α)}
    (h : Filed τ b) (timestamp : ℚ) (interval : Option ℚ) :
    Filed τ (b.visit timestamp interval) :=
  TimeBucket.Forall.visit h timestamp interval

/-- A pass leaves records filed. -/
theorem filed_setBucket_visit {s : Receiver α} (h : ∀ σ, Filed σ (s.buckets σ))
    (τ : InternalType) (timestamp : ℚ) (σ : InternalType) :
    Filed σ ((s.setBucket τ ((s.buckets τ).visit timestamp none)).buckets σ) := by
  by_cases hσ : σ = τ
  · rw [hσ, setBucket_same]
    exact filed_visit (h τ) timestamp none
  · rw [setBucket_of_ne hσ]
    exact h σ

variable [One α]

/-- **What `_set_stats` does.** -/
theorem setStats_eq {m : Message α} {τ : InternalType} (hτ : InternalType.ofName? m.type = some τ)
    (s : Receiver α) :
    setStats m s =
      if ¬s.AcceptsMessage τ m then
        .error ((s.buckets τ).refusal m.time (m.interval * 2 : ℚ)) (s.storeState τ m)
      else if m.typeInstance = "" then .ok () (s.storeState τ m)
      else if (s.storeState τ m).AcceptsProcess m then .ok () ((s.storeState τ m).countState m)
      else .error (((s.storeState τ m).buckets .process).refusal m.time (m.interval * 5 : ℚ))
        ((s.storeState τ m).countState m) := by
  have hput := onBucket_put τ m.time (m.interval * 2) m.key m s
  have hcount := onBucket_put .process m.time (m.interval * 5) m.key m.processRecord
    (s.storeState τ m)
  unfold setStats
  rw [hτ]
  dsimp only
  rw [← bind_assoc]
  simp only [bind, EStateM.bind] at hput hcount ⊢
  rw [hput]
  by_cases haccepts : s.AcceptsMessage τ m
  · have hbucket : (s.buckets τ).Accepts m.time (m.interval * 2 : ℚ) := haccepts
    rw [if_neg (not_not_intro haccepts), if_pos hbucket]
    by_cases htoken : m.typeInstance = ""
    · rw [if_pos htoken, if_neg (not_not_intro htoken)]
      rfl
    · rw [if_neg htoken, if_pos htoken]
      exact hcount
  · have hbucket : ¬(s.buckets τ).Accepts m.time (m.interval * 2 : ℚ) := haccepts
    rw [if_pos haccepts, if_neg hbucket]
    rfl

theorem setStats_unknown {m : Message α} (hτ : InternalType.ofName? m.type = none)
    (s : Receiver α) : setStats m s = .error .keyError s := by
  unfold setStats
  rw [hτ]
  rfl

variable [Add α] [Zero α]

theorem step_setStats {m : Message α} {τ : InternalType}
    (hτ : InternalType.ofName? m.type = some τ) (s : Receiver α) :
    s.step (.setStats m) =
      if s.AcceptsMessage τ m ∧ m.typeInstance ≠ "" then (s.storeState τ m).countState m
      else s.storeState τ m := by
  unfold step
  dsimp only
  rw [setStats_eq hτ]
  by_cases haccepts : s.AcceptsMessage τ m
  · rw [if_neg (not_not_intro haccepts)]
    by_cases htoken : m.typeInstance = ""
    · rw [if_pos htoken, if_neg fun h => h.2 htoken]
    · rw [if_neg htoken, if_pos (And.intro haccepts htoken)]
      by_cases hprocess : (s.storeState τ m).AcceptsProcess m
      · rw [if_pos hprocess]
      · rw [if_neg hprocess]
  · rw [if_pos haccepts, if_neg fun h => haccepts h.1]

theorem step_setStats_unknown {m : Message α} (hτ : InternalType.ofName? m.type = none)
    (s : Receiver α) : s.step (.setStats m) = s := by
  unfold step
  dsimp only
  rw [setStats_unknown hτ]

theorem buckets_step_setStats {m : Message α} {τ : InternalType}
    (hτ : InternalType.ofName? m.type = some τ) (s : Receiver α) {σ : InternalType}
    (hσ : σ ≠ .process) :
    (s.step (.setStats m)).buckets σ =
      if σ = τ then (s.buckets σ).putState m.time (m.interval * 2) m.key m else s.buckets σ := by
  rw [step_setStats hτ]
  split
  · rw [buckets_countState, if_neg hσ, buckets_storeState]
  · rw [buckets_storeState]

/-! ### Taking a summary -/

omit [One α] in
/-- A pass visits its bucket, whether it raises or not. -/
theorem summarizePass_state (timestamp : ℚ) (τ : InternalType) (g : Grouping) (s : Receiver α) :
    (summarizePass timestamp τ g s).2 =
      s.setBucket τ ((s.buckets τ).visit timestamp none) := by
  unfold summarizePass onBucket getData
  rw [getBucket_eq]
  split_ifs <;> rfl

omit [One α] in
theorem summarizePasses_cons (timestamp : ℚ) (p : InternalType × Grouping)
    (ps : List (InternalType × Grouping)) (s : Receiver α) :
    (summarizePasses timestamp (p :: ps) s).1 =
      (summarizePass timestamp p.1 p.2 s).1.andThen
        (summarizePasses timestamp ps (summarizePass timestamp p.1 p.2 s).2).1 := by
  rw [summarizePasses]
  dsimp only
  cases h : (summarizePass timestamp p.1 p.2 s).1.raised with
  | none => rfl
  | some e => rw [Yielded.andThen_of_raised h]

/-- Buckets are visited at one time, as a summary does, however far it has come. -/
inductive Visits (now : ℚ) (s : Receiver α) : Receiver α → Prop
  | refl : Visits now s s
  | visit {s' : Receiver α} (before : Visits now s s') (τ : InternalType) :
      Visits now s (s'.setBucket τ ((s'.buckets τ).visit now none))

omit [One α] [Add α] [Zero α] in
theorem Visits.trans {now : ℚ} {s s' s'' : Receiver α} (h : Visits now s s')
    (h' : Visits now s' s'') : Visits now s s'' := by
  induction h' with
  | refl => exact h
  | visit _ τ ih => exact ih.visit τ

omit [One α] [Add α] [Zero α] in
/-- What a visit preserves, visits preserve. -/
theorem Visits.preserves {P : InternalType → TimeBucket ProcessKey (Message α) → Prop} {now : ℚ}
    (hvisit : ∀ σ b, P σ b → P σ (b.visit now none)) {s s' : Receiver α} (h : Visits now s s')
    (hs : ∀ σ, P σ (s.buckets σ)) (σ : InternalType) : P σ (s'.buckets σ) := by
  induction h generalizing σ with
  | refl => exact hs σ
  | visit _ τ ih =>
      by_cases hσ : σ = τ
      · rw [hσ, setBucket_same]
        exact hvisit τ _ (ih τ)
      · rw [setBucket_of_ne hσ]
        exact ih σ

omit [One α] in
theorem visits_summarizePasses (timestamp : ℚ) (ps : List (InternalType × Grouping))
    (s : Receiver α) : Visits timestamp s (summarizePasses timestamp ps s).2 := by
  induction ps generalizing s with
  | nil => exact .refl
  | cons p ps ih =>
      have hpass : Visits timestamp s (summarizePass timestamp p.1 p.2 s).2 := by
        rw [summarizePass_state]
        exact Visits.refl.visit p.1
      unfold summarizePasses
      dsimp only
      split
      · exact hpass
      · exact hpass.trans (ih _)

omit [One α] in
/-- A summary visits buckets. -/
theorem visits_summarize (timestamp : ℚ) (s : Receiver α) :
    Visits timestamp s (summarize timestamp s).2 :=
  visits_summarizePasses timestamp passes s

omit [One α] in
/-- What a visit at their timestamp preserves, passes preserve. -/
theorem summarizePasses_preserves {P : InternalType → TimeBucket ProcessKey (Message α) → Prop}
    {timestamp : ℚ} (hvisit : ∀ σ b, P σ b → P σ (b.visit timestamp none))
    (ps : List (InternalType × Grouping)) {s : Receiver α} (hs : ∀ σ, P σ (s.buckets σ))
    (σ : InternalType) : P σ ((summarizePasses timestamp ps s).2.buckets σ) :=
  (visits_summarizePasses timestamp ps s).preserves hvisit hs σ

omit [One α] in
theorem summarize_preserves {P : InternalType → TimeBucket ProcessKey (Message α) → Prop}
    {timestamp : ℚ} (hvisit : ∀ σ b, P σ b → P σ (b.visit timestamp none)) {s : Receiver α}
    (hs : ∀ σ, P σ (s.buckets σ)) (σ : InternalType) :
    P σ ((summarize timestamp s).2.buckets σ) :=
  summarizePasses_preserves hvisit passes hs σ

omit [One α] in
/-- **Everything a summary yields** is what a pass makes of a bucket as the summary
leaves it behind. -/
theorem mem_summarizePasses {timestamp : ℚ} {ps : List (InternalType × Grouping)}
    {s : Receiver α} (hfiled : ∀ σ, Filed σ (s.buckets σ)) {v : Values α}
    (hv : v ∈ (summarizePasses timestamp ps s).1.values) :
    ∃ p ∈ ps, v ∈ passValues timestamp p.1 p.2
      ((summarizePasses timestamp ps s).2.buckets p.1) := by
  induction ps generalizing s with
  | nil => cases hv
  | cons p ps ih =>
      obtain ⟨τ, g⟩ := p
      by_cases haccepts : (s.buckets τ).Accepts timestamp none
      · have hpass := summarizePass_of_accepts (g := g) haccepts
          (filed_visit (hfiled τ) timestamp none)
        have hrest : summarizePasses timestamp ((τ, g) :: ps) s =
            (.andThen ⟨passValues timestamp τ g ((s.buckets τ).visit timestamp none), none⟩
                (summarizePasses timestamp ps
                  (s.setBucket τ ((s.buckets τ).visit timestamp none))).1,
              (summarizePasses timestamp ps
                (s.setBucket τ ((s.buckets τ).visit timestamp none))).2) := by
          rw [summarizePasses, hpass]
        rw [hrest] at hv ⊢
        rcases List.mem_append.mp hv with hv | hv
        · -- later passes do not touch the swept bucket
          refine ⟨(τ, g), List.mem_cons_self, ?_⟩
          have hkeep : ∀ σ, σ = τ → (summarizePasses timestamp ps
              (s.setBucket τ ((s.buckets τ).visit timestamp none))).2.buckets σ =
                (s.buckets τ).visit timestamp none :=
            summarizePasses_preserves
              (P := fun σ b => σ = τ → b = (s.buckets τ).visit timestamp none)
              (fun σ b hb hσ => by rw [hb hσ, visit_visit haccepts]) ps
              fun σ hσ => by rw [hσ, setBucket_same]
          rw [hkeep τ rfl]
          exact hv
        · obtain ⟨p, hp, hv⟩ := ih (filed_setBucket_visit hfiled τ timestamp) hv
          exact ⟨p, List.mem_cons_of_mem _ hp, hv⟩
      · rw [summarizePasses, summarizePass_of_not_accepts haccepts] at hv
        cases hv

omit [One α] in
theorem summarizePasses_eq {timestamp : ℚ}
    {V : InternalType → TimeBucket ProcessKey (Message α)}
    (hV : ∀ σ, (V σ).Accepts timestamp none ∧ (V σ).visit timestamp none = V σ)
    (hfiled : ∀ σ, Filed σ (V σ)) :
    ∀ (ps : List (InternalType × Grouping)) {s : Receiver α},
      (∀ σ, (s.buckets σ).Accepts timestamp none ∧ (s.buckets σ).visit timestamp none = V σ) →
      summarizePasses timestamp ps s =
        (⟨ps.flatMap fun p => passValues timestamp p.1 p.2 (V p.1), none⟩,
          ⟨fun σ => if σ ∈ ps.map Prod.fst then V σ else s.buckets σ⟩) := by
  intro ps
  induction ps with
  | nil =>
      intro s _
      simp [summarizePasses]
  | cons p ps ih =>
      obtain ⟨τ, g⟩ := p
      intro s hs
      -- the pass leaves the swept bucket behind, on which a second visit does nothing
      have hnext : ∀ σ, ((s.setBucket τ (V τ)).buckets σ).Accepts timestamp none ∧
          ((s.setBucket τ (V τ)).buckets σ).visit timestamp none = V σ := by
        intro σ
        by_cases h : σ = τ
        · rw [h, setBucket_same]
          exact hV τ
        · rw [setBucket_of_ne h]
          exact hs σ
      have hpass : summarizePass timestamp τ g s =
          (⟨passValues timestamp τ g (V τ), none⟩, s.setBucket τ (V τ)) := by
        rw [summarizePass_of_accepts (hs τ).1 ((hs τ).2 ▸ hfiled τ), (hs τ).2]
      rw [summarizePasses, hpass]
      dsimp only
      rw [ih hnext]
      refine Prod.ext rfl (congrArg Receiver.mk (funext fun σ => ?_))
      have hmem : σ ∈ ((τ, g) :: ps).map Prod.fst ↔ σ = τ ∨ σ ∈ ps.map Prod.fst := List.mem_cons
      by_cases h : σ = τ
      · rw [if_pos (hmem.mpr (Or.inl h)), h, setBucket_same, ite_self]
      · rw [setBucket_of_ne h]
        exact if_congr (hmem.trans (or_iff_right h)).symm rfl rfl

omit [One α] in
/-- **A summary of buckets that accept it** is what the passes yield over the
buckets as they are found, swept once. -/
theorem summarize_eq {timestamp : ℚ} {s : Receiver α}
    (haccepts : ∀ τ, (s.buckets τ).Accepts timestamp none)
    (hagain : ∀ τ, ((s.buckets τ).visit timestamp none).Accepts timestamp none)
    (hfiled : ∀ τ, Filed τ (s.buckets τ)) :
    summarize timestamp s =
      (⟨passes.flatMap fun p => passValues timestamp p.1 p.2 ((s.buckets p.1).visit timestamp none),
          none⟩,
        ⟨fun τ => (s.buckets τ).visit timestamp none⟩) := by
  unfold summarize
  rw [summarizePasses_eq (V := fun τ => (s.buckets τ).visit timestamp none)
    (fun σ => ⟨hagain σ, visit_visit (haccepts σ)⟩)
    (fun σ => filed_visit (hfiled σ) timestamp none) passes fun σ => ⟨haccepts σ, rfl⟩]
  refine Prod.ext rfl (congrArg Receiver.mk (funext fun σ => if_pos ?_))
  cases σ <;> decide

omit [One α] in
/-- Passes raise when a bucket refuses one of the accesses they make to it. -/
theorem summarizePasses_raised {t : ℚ} (ps : List (InternalType × Grouping)) {s : Receiver α}
    (hfiled : ∀ σ, Filed σ (s.buckets σ)) :
    (summarizePasses t ps s).1.raised = none ↔
      ∀ σ, AcceptsTimes t ((ps.map Prod.fst).count σ) (s.buckets σ) := by
  induction ps generalizing s with
  | nil => simp [summarizePasses, AcceptsTimes]
  | cons p ps ih =>
      obtain ⟨τ, g⟩ := p
      rw [summarizePasses_cons, Yielded.andThen_raised, List.map_cons]
      by_cases haccepts : (s.buckets τ).Accepts t none
      · rw [summarizePass_of_accepts haccepts (filed_visit (hfiled τ) t none),
          ih (filed_setBucket_visit hfiled τ t)]
        refine (and_iff_right rfl).trans (forall_congr' fun σ => ?_)
        by_cases h : σ = τ
        · subst h
          rw [setBucket_same, List.count_cons_self, AcceptsTimes]
          exact (and_iff_right haccepts).symm
        · rw [setBucket_of_ne h, List.count_cons_of_ne (Ne.symm h)]
      · rw [summarizePass_of_not_accepts haccepts]
        refine iff_of_false (fun h => by cases h.1) fun h => haccepts ?_
        have hτ := h τ
        rw [List.count_cons_self] at hτ
        exact hτ.1

/-! ### Every run -/

theorem run_append (ops : List (Op α)) (op : Op α) : run (ops ++ [op]) = (run ops).step op := by
  unfold run
  rw [List.foldl_append, List.foldl_cons, List.foldl_nil]

/-- A receiver in which the messages of a history were stored, each as a whole. An entry
`.summarize now` stands for visits of a summary at `now`, which messages may interrupt. -/
inductive Reaches : List (Op α) → Receiver α → Prop
  | nil : Reaches [] {}
  | setStats {ops : List (Op α)} {s : Receiver α} (before : Reaches ops s) (m : Message α) :
      Reaches (ops ++ [.setStats m]) (s.step (.setStats m))
  | visits {ops : List (Op α)} {s s' : Receiver α} {now : ℚ} (before : Reaches ops s)
      (hvisits : Visits now s s') : Reaches (ops ++ [.summarize now]) s'

/-- A run takes its summaries as a whole. -/
theorem reaches_run (ops : List (Op α)) : Reaches ops (run ops) := by
  induction ops using List.reverseRecOn with
  | nil => exact .nil
  | append_singleton ops op ih =>
      rw [run_append]
      cases op with
      | setStats m => exact ih.setStats m
      | summarize now => exact ih.visits (visits_summarize now _)

/-- What a message and the record made from it satisfy, all records go on to satisfy. -/
theorem forall_setStats {P : InternalType → ProcessKey → Record (Message α) → Prop}
    {m : Message α}
    (hstore : ∀ τ, InternalType.ofName? m.type = some τ → P τ m.key ⟨m.time, m.interval * 2, m⟩)
    (hcount : P .process m.key ⟨m.time, m.interval * 5, m.processRecord⟩) {s : Receiver α}
    (h : ∀ τ, (s.buckets τ).Forall (P τ)) (σ : InternalType) :
    ((s.step (.setStats m)).buckets σ).Forall (P σ) := by
  cases hτ : InternalType.ofName? m.type with
  | none =>
      rw [step_setStats_unknown hτ]
      exact h σ
  | some τ =>
      have hmain : ∀ σ, ((s.storeState τ m).buckets σ).Forall (P σ) := by
        intro σ
        rw [buckets_storeState]
        split
        · rename_i hσ
          exact (h σ).putState (hσ ▸ hstore τ hτ)
        · exact h σ
      rw [step_setStats hτ]
      split
      · rw [buckets_countState]
        split
        · rename_i hσ
          exact (hmain σ).putState (hσ ▸ hcount)
        · exact hmain σ
      · exact hmain σ

/-- What the messages and the records made from them satisfy, all records satisfy. -/
theorem Reaches.forall {P : InternalType → ProcessKey → Record (Message α) → Prop}
    {ops : List (Op α)} {s : Receiver α} (h : Reaches ops s)
    (hstore : ∀ m τ, .setStats m ∈ ops → InternalType.ofName? m.type = some τ →
      P τ m.key ⟨m.time, m.interval * 2, m⟩)
    (hcount : ∀ m, .setStats m ∈ ops →
      P .process m.key ⟨m.time, m.interval * 5, m.processRecord⟩) (σ : InternalType) :
    (s.buckets σ).Forall (P σ) := by
  induction h generalizing σ with
  | nil => intro k r hr; cases hr
  | @setStats ops s _ m ih =>
      have hlast : Op.setStats m ∈ ops ++ [.setStats m] :=
        List.mem_append_right _ List.mem_cons_self
      exact forall_setStats (fun τ => hstore m τ hlast) (hcount m hlast)
        (ih (fun m τ hm => hstore m τ (List.mem_append_left _ hm))
          fun m hm => hcount m (List.mem_append_left _ hm)) σ
  | visits _ hvisits ih =>
      exact hvisits.preserves (P := fun τ b => b.Forall (P τ)) (fun _ _ hb => hb.visit _ none)
        (ih (fun m τ hm => hstore m τ (List.mem_append_left _ hm))
          fun m hm => hcount m (List.mem_append_left _ hm)) σ

theorem forall_run {P : InternalType → ProcessKey → Record (Message α) → Prop} {ops : List (Op α)}
    (hstore : ∀ m τ, .setStats m ∈ ops → InternalType.ofName? m.type = some τ →
      P τ m.key ⟨m.time, m.interval * 2, m⟩)
    (hcount : ∀ m, .setStats m ∈ ops →
      P .process m.key ⟨m.time, m.interval * 5, m.processRecord⟩) (σ : InternalType) :
    ((run ops).buckets σ).Forall (P σ) :=
  (reaches_run ops).forall hstore hcount σ

/-- Records stay filed. -/
theorem filed_step {s : Receiver α} (h : ∀ τ, Filed τ (s.buckets τ)) (op : Op α)
    (σ : InternalType) : Filed σ ((s.step op).buckets σ) := by
  cases op with
  | setStats m =>
      exact forall_setStats (P := fun τ k r => r.value.type = τ.name ∧ r.value.key = k)
        (fun _ hτ => ⟨(InternalType.name_of_ofName? hτ).symm, rfl⟩) ⟨rfl, rfl⟩ h σ
  | summarize now =>
      exact summarize_preserves (P := Filed) (fun _ _ hb => filed_visit hb now none) h σ

/-- **In every reachable state each record is filed under its own type and key.** -/
theorem Reaches.filed {ops : List (Op α)} {s : Receiver α} (h : Reaches ops s)
    (τ : InternalType) : Filed τ (s.buckets τ) :=
  h.forall (P := fun τ k r => r.value.type = τ.name ∧ r.value.key = k)
    (fun _ _ _ hτ => ⟨(InternalType.name_of_ofName? hτ).symm, rfl⟩) (fun _ _ => ⟨rfl, rfl⟩) τ

theorem filed_run (ops : List (Op α)) (τ : InternalType) : Filed τ ((run ops).buckets τ) :=
  (reaches_run ops).filed τ

end Receiver

end SqlalchemyCollectd
