import SqlalchemyCollectd.Lib.Transition
import SqlalchemyCollectd.Server.Steps

/-!
# SqlalchemyCollectd.Server.Generator

`summarize` as the generator it is, interleaved with incoming messages.

collectd's read thread consumes the generator one value at a time, while the
listener thread goes on storing messages. A `Generator` is a summary in progress:
the values of the last group read that are still to be yielded, the groups of the
current pass that are still to be read, the passes still to be started. `tick` is
one of its internal steps, and a resumption is a row of ticks up to the next
value; the events of a run are ticks and messages in any order, so messages
between resumptions are a special case.

`outcome` is what a generator comes to when it is left alone from here on. Ticks do
not change it (`outcome_tick`), they get there (`finishes_iff`), and for a generator
at its start it is the summary. `settled` is likewise what it leaves of the receiver.
-/

namespace SqlalchemyCollectd

open Transition

/-- A group of keys to be summed up, with its pass. -/
structure KeyGroup where
  type : InternalType
  grouping : Grouping
  keys : List ProcessKey
  deriving DecidableEq

/-- A summary in progress. The last three fields are history: what was yielded,
which groups the passes found when they started, and which of them were read with
which records. -/
structure Generator (α : Type) where
  receiver : Receiver α
  pending : Yielded (Values α) := {}
  unread : List KeyGroup := []
  rest : List (InternalType × Grouping) := Receiver.passes
  raised : Option PyError := none
  /-- Not started, or stopped at a `yield`. -/
  suspended : Bool := true
  emitted : List (Values α) := []
  started : List KeyGroup := []
  read : List (KeyGroup × List (Message α)) := []

namespace Generator

open Receiver TimeBucket

variable {α : Type} [Add α] [Zero α]

/-- What a group comes to when it is read now. -/
def readGroup (t : ℚ) (s : Receiver α) (group : KeyGroup) : Yielded (Values α) :=
  summarizeGroup group.grouping t (s.buckets group.type) group.keys

/-- One internal step; there is none when the generator is exhausted. -/
def tick (t : ℚ) (st : Generator α) : Option (Generator α) :=
  match st.raised, st.pending, st.unread, st.rest with
  | some _, _, _, _ => none
  | none, ⟨v :: vs, raised⟩, _, _ =>
      some { st with pending := ⟨vs, raised⟩, emitted := st.emitted ++ [v], suspended := true }
  | none, ⟨[], some e⟩, _, _ => some { st with raised := e, suspended := false }
  | none, ⟨[], none⟩, group :: unread, _ =>
      let recs := group.keys.filterMap (st.receiver.buckets group.type).getItem?
      some { st with
        pending := readGroup t st.receiver group, unread, suspended := false
        read := st.read ++ [(group, recs)] }
  | none, ⟨[], none⟩, [], (τ, g) :: rest =>
      match onBucket τ (getData t none) st.receiver with
      | .ok _ s =>
          let groups := (groupsOf g (s.buckets τ)).map (KeyGroup.mk τ g)
          some { st with
            receiver := s, unread := groups, rest, suspended := false
            started := st.started ++ groups }
      | .error e s => some { st with receiver := s, raised := e, suspended := false }
  | none, ⟨[], none⟩, [], [] => none

inductive Event (α : Type)
  | tick
  | setStats (m : Message α)
  deriving DecidableEq

variable [One α]

/-- The receiver stores a message while the generator is where it is. -/
def store (m : Message α) (st : Generator α) : Generator α :=
  { st with receiver := st.receiver.step (.setStats m) }

def step (t : ℚ) (st : Generator α) : Event α → Option (Generator α)
  | .tick => st.tick t
  | .setStats m => some (st.store m)

/-- A generator at its start. -/
def start (s : Receiver α) : Generator α := { receiver := s }

/-! ### What a tick does -/

omit [One α] in
/-- The steps of a generator, one for each thing it can do next. -/
theorem tick_cases {t : ℚ} {st st' : Generator α} (h : st.tick t = some st') :
    st.raised = none ∧
      ((∃ v vs, st.pending.values = v :: vs ∧
          st' = { st with
            pending := ⟨vs, st.pending.raised⟩, emitted := st.emitted ++ [v],
            suspended := true }) ∨
        (∃ e, st.pending = ⟨[], some e⟩ ∧ st' = { st with raised := e, suspended := false }) ∨
        (∃ group unread, st.pending = {} ∧ st.unread = group :: unread ∧
          st' = { st with
            pending := readGroup t st.receiver group
            unread
            suspended := false
            read := st.read ++
              [(group, group.keys.filterMap (st.receiver.buckets group.type).getItem?)] }) ∨
        (∃ τ g rest, st.pending = {} ∧ st.unread = [] ∧ st.rest = (τ, g) :: rest ∧
          (st.receiver.buckets τ).Accepts t none ∧
          st' = { st with
            receiver := st.receiver.setBucket τ ((st.receiver.buckets τ).visit t none)
            unread := (groupsOf g ((st.receiver.buckets τ).visit t none)).map (KeyGroup.mk τ g)
            rest
            suspended := false
            started := st.started ++
              (groupsOf g ((st.receiver.buckets τ).visit t none)).map (KeyGroup.mk τ g) }) ∨
        (∃ τ g rest, st.pending = {} ∧ st.unread = [] ∧ st.rest = (τ, g) :: rest ∧
          ¬(st.receiver.buckets τ).Accepts t none ∧
          st' = { st with
            receiver := st.receiver.setBucket τ ((st.receiver.buckets τ).visit t none)
            raised := (st.receiver.buckets τ).refusal t none
            suspended := false })) := by
  obtain ⟨s, ⟨values, praised⟩, unread, rest, raised, suspended, emitted, started, read⟩ := st
  cases raised with
  | some e => cases h
  | none =>
      refine ⟨rfl, ?_⟩
      cases values with
      | cons v vs => exact Or.inl ⟨v, vs, rfl, (Option.some.inj h).symm⟩
      | nil =>
          refine Or.inr ?_
          cases praised with
          | some e => exact Or.inl ⟨e, rfl, (Option.some.inj h).symm⟩
          | none =>
              refine Or.inr ?_
              cases unread with
              | cons group unread =>
                  exact Or.inl ⟨group, unread, rfl, rfl, (Option.some.inj h).symm⟩
              | nil =>
                  refine Or.inr ?_
                  cases rest with
                  | nil => cases h
                  | cons p rest =>
                      obtain ⟨τ, g⟩ := p
                      simp only [tick, onBucket, getData, getBucket_eq] at h
                      by_cases haccepts : (s.buckets τ).Accepts t none
                      · rw [if_pos haccepts] at h
                        simp only [setBucket_same, Option.some.injEq] at h
                        exact Or.inl ⟨τ, g, rest, rfl, rfl, rfl, haccepts, h.symm⟩
                      · rw [if_neg haccepts] at h
                        exact Or.inr ⟨τ, g, rest, rfl, rfl, rfl, haccepts, (Option.some.inj h).symm⟩

omit [One α] in
/-- A generator without a next step has raised or has nothing left to do. -/
theorem exhausted {t : ℚ} {st : Generator α} (h : st.tick t = none) (hraised : st.raised = none) :
    st.pending = {} ∧ st.unread = [] ∧ st.rest = [] := by
  obtain ⟨s, ⟨values, praised⟩, unread, rest, raised, suspended, emitted, started, read⟩ := st
  obtain rfl : raised = none := hraised
  rcases values with _ | ⟨v, vs⟩
  · rcases praised with _ | e
    · rcases unread with _ | ⟨group, unread⟩
      · rcases rest with _ | ⟨⟨τ, g⟩, rest⟩
        · exact ⟨rfl, rfl, rfl⟩
        · simp only [tick] at h
          split at h <;> cases h
      · cases h
    · cases h
  · cases h

/-! ### Left alone

`outcome` is what a generator comes to when no message interferes any more. -/

/-- What is still to be yielded. -/
def remaining (t : ℚ) (st : Generator α) : Yielded (Values α) :=
  st.pending.andThen
    ((Yielded.collect (readGroup t st.receiver) st.unread).andThen
      (summarizePasses t st.rest st.receiver).1)

/-- What has been yielded and what is still to be. -/
def outcome (t : ℚ) (st : Generator α) : Yielded (Values α) :=
  match st.raised with
  | some e => ⟨st.emitted, some e⟩
  | none => .andThen ⟨st.emitted, none⟩ (st.remaining t)

omit [One α] in
/-- At its start, a generator is the summary. -/
theorem outcome_start (t : ℚ) (s : Receiver α) : (start s).outcome t = (summarize t s).1 := rfl

omit [One α] in
/-- A pass is its groups, read without an interruption. -/
theorem summarizePass_eq_collect {t : ℚ} {τ : InternalType} {g : Grouping} {s : Receiver α}
    (haccepts : (s.buckets τ).Accepts t none) :
    summarizePass t τ g s =
      (.collect (readGroup t (s.setBucket τ ((s.buckets τ).visit t none)))
          ((groupsOf g ((s.buckets τ).visit t none)).map (KeyGroup.mk τ g)),
        s.setBucket τ ((s.buckets τ).visit t none)) := by
  unfold summarizePass onBucket getData
  rw [getBucket_eq, if_pos haccepts, Yielded.collect_map]
  simp only [readGroup, setBucket_same]

omit [One α] in
/-- **A tick does not change the outcome.** -/
theorem outcome_tick {t : ℚ} {st st' : Generator α} (h : st.tick t = some st') :
    st'.outcome t = st.outcome t := by
  obtain ⟨hraised, hcases⟩ := tick_cases h
  have hst : st.outcome t = .andThen ⟨st.emitted, none⟩ (st.remaining t) := by
    rw [outcome, hraised]
  rw [hst, remaining]
  obtain ⟨v, vs, hpending, rfl⟩ | ⟨e, hpending, rfl⟩ | ⟨group, unread, hpending, hunread, rfl⟩ |
    ⟨τ, g, rest, hpending, hunread, hrest, haccepts, rfl⟩ |
    ⟨τ, g, rest, hpending, hunread, hrest, haccepts, rfl⟩ := hcases
  · -- a value moves from what is pending to what is emitted
    have hmove : (⟨st.emitted ++ [v], none⟩ : Yielded (Values α)).andThen
        ⟨vs, st.pending.raised⟩ = .andThen ⟨st.emitted, none⟩ st.pending := by
      rw [Yielded.mk_andThen, Yielded.mk_andThen, hpending, List.append_assoc]
      rfl
    rw [outcome, hraised, remaining]
    dsimp only
    rw [← Yielded.andThen_assoc, hmove, Yielded.andThen_assoc]
  · rw [hpending, outcome]
    dsimp only
    rw [Yielded.mk_andThen]
    show _ = (⟨st.emitted ++ [], some e⟩ : Yielded (Values α))
    rw [List.append_nil]
  · rw [outcome, hraised, remaining, hpending, hunread, Yielded.empty_andThen, Yielded.collect,
      Yielded.andThen_assoc]
  · rw [outcome, hraised, remaining, hpending, hunread, hrest, summarizePasses_cons,
      summarizePass_eq_collect haccepts]
    rfl
  · rw [outcome, hpending, hunread, hrest, summarizePasses_cons,
      summarizePass_of_not_accepts haccepts]
    show _ = (⟨st.emitted ++ [], _⟩ : Yielded (Values α))
    rw [List.append_nil]
    rfl

omit [One α] in
/-- An exhausted generator has come to its outcome. -/
theorem outcome_exhausted {t : ℚ} {st : Generator α} (h : st.tick t = none) :
    st.outcome t = ⟨st.emitted, st.raised⟩ := by
  unfold outcome
  cases hraised : st.raised with
  | some e => rfl
  | none =>
      obtain ⟨hpending, hunread, hrest⟩ := exhausted h hraised
      rw [remaining, hpending, hunread, hrest]
      show (⟨st.emitted ++ [], none⟩ : Yielded (Values α)) = _
      rw [List.append_nil]

omit [Add α] [Zero α] [One α] in
/-- What is left to do, in the order in which it is done. -/
def measure (st : Generator α) : ℕ × ℕ × ℕ × ℕ :=
  (st.rest.length, st.unread.length, st.pending.values.length, if st.raised = none then 1 else 0)

omit [One α] in
theorem measure_tick {t : ℚ} {st st' : Generator α} (h : st.tick t = some st') :
    WellFoundedRelation.rel st'.measure st.measure := by
  obtain ⟨hraised, hcases⟩ := tick_cases h
  obtain ⟨v, vs, hpending, rfl⟩ | ⟨e, hpending, rfl⟩ | ⟨group, unread, hpending, hunread, rfl⟩ |
    ⟨τ, g, rest, hpending, hunread, hrest, haccepts, rfl⟩ |
    ⟨τ, g, rest, hpending, hunread, hrest, haccepts, rfl⟩ := hcases
  · refine .right _ (.right _ (.left _ _ ?_))
    show vs.length < st.pending.values.length
    rw [hpending]
    exact Nat.lt_succ_self _
  · refine .right _ (.right _ (.right _ ?_))
    show _ < if st.raised = none then 1 else 0
    rw [if_pos hraised]
    exact Nat.zero_lt_one
  · refine .right _ (.left _ _ ?_)
    show unread.length < st.unread.length
    rw [hunread]
    exact Nat.lt_succ_self _
  · refine .left _ _ ?_
    show rest.length < st.rest.length
    rw [hrest]
    exact Nat.lt_succ_self _
  · refine .right _ (.right _ (.right _ ?_))
    show _ < if st.raised = none then 1 else 0
    rw [if_pos hraised]
    exact Nat.zero_lt_one

/-- Left alone, a generator comes to its outcome. -/
theorem exists_exhausted (t : ℚ) (st : Generator α) :
    ∃ is st', Run (step t) (fun _ e => e = .tick) st is st' ∧ st'.tick t = none ∧
      st.outcome t = ⟨st'.emitted, st'.raised⟩ := by
  cases h : st.tick t with
  | none => exact ⟨[], st, .nil, h, outcome_exhausted h⟩
  | some next =>
      obtain ⟨is, st', hrun, hend, houtcome⟩ := exists_exhausted t next
      refine ⟨.tick :: is, st', ?_, hend, (outcome_tick h).symm.trans houtcome⟩
      refine Run.cons ?_ (show step t st .tick = some next from h) hrun
      rfl
termination_by st.measure
decreasing_by exact measure_tick h

theorem outcome_ticks {t : ℚ} {st st' : Generator α} {is : List (Event α)}
    (h : Run (step t) (fun _ e => e = .tick) st is st') : st'.outcome t = st.outcome t := by
  refine h.invariant (P := fun _ s => s.outcome t = st.outcome t) rfl ?_
  intro is s e s' hs htick hstep
  subst htick
  exact (outcome_tick hstep).trans hs

/-- Left alone, the generator is exhausted without an exception. -/
def Finishes (t : ℚ) (st : Generator α) : Prop :=
  ∃ is st', Run (step t) (fun _ e => e = .tick) st is st' ∧ st'.tick t = none ∧ st'.raised = none

/-- **Left alone, a generator finishes if its outcome is not an exception.** -/
theorem finishes_iff {t : ℚ} {st : Generator α} :
    st.Finishes t ↔ (st.outcome t).raised = none := by
  constructor
  · intro ⟨is, st', hrun, hend, hraised⟩
    rw [← outcome_ticks hrun, outcome_exhausted hend]
    exact hraised
  · intro h
    obtain ⟨is, st', hrun, hend, houtcome⟩ := exists_exhausted t st
    rw [houtcome] at h
    exact ⟨is, st', hrun, hend, h⟩

/-! ### The receiver it leaves behind -/

omit [One α] in
/-- A tick visits a bucket or leaves them alone. -/
theorem visits_tick {t : ℚ} {st st' : Generator α} (h : st.tick t = some st') :
    Visits t st.receiver st'.receiver := by
  obtain ⟨-, hcases⟩ := tick_cases h
  obtain ⟨v, vs, -, rfl⟩ | ⟨e, -, rfl⟩ | ⟨group, unread, -, -, rfl⟩ |
    ⟨τ, g, rest, -, -, -, -, rfl⟩ | ⟨τ, g, rest, -, -, -, -, rfl⟩ := hcases
  · exact .refl
  · exact .refl
  · exact .refl
  · exact Visits.refl.visit τ
  · exact Visits.refl.visit τ

/-- What is left of the current pass. -/
def passing (t : ℚ) (st : Generator α) : Yielded (Values α) :=
  st.pending.andThen (.collect (readGroup t st.receiver) st.unread)

/-- The receiver as a generator that is left alone leaves it: an exception ends it
before the passes that are still to be started. -/
def settled (t : ℚ) (st : Generator α) : Receiver α :=
  if st.raised = none ∧ (st.passing t).raised = none then
    (summarizePasses t st.rest st.receiver).2
  else st.receiver

omit [One α] in
theorem settled_start (t : ℚ) (s : Receiver α) : (start s).settled t = (summarize t s).2 := rfl

omit [One α] in
/-- The first of several passes decides whether the others come. -/
theorem summarizePasses_cons_state (t : ℚ) (p : InternalType × Grouping)
    (ps : List (InternalType × Grouping)) (s : Receiver α) :
    (summarizePasses t (p :: ps) s).2 =
      if (summarizePass t p.1 p.2 s).1.raised = none then
        (summarizePasses t ps (summarizePass t p.1 p.2 s).2).2
      else (summarizePass t p.1 p.2 s).2 := by
  rw [summarizePasses]
  dsimp only
  split <;> simp_all

omit [One α] in
/-- **A tick does not change what is left behind.** -/
theorem settled_tick {t : ℚ} {st st' : Generator α} (h : st.tick t = some st') :
    st'.settled t = st.settled t := by
  obtain ⟨hraised, hcases⟩ := tick_cases h
  have hst : st.settled t = if (st.passing t).raised = none then
      (summarizePasses t st.rest st.receiver).2 else st.receiver := by
    rw [settled, hraised]
    simp
  rw [hst, passing]
  obtain ⟨v, vs, hpending, rfl⟩ | ⟨e, hpending, rfl⟩ | ⟨group, unread, hpending, hunread, rfl⟩ |
    ⟨τ, g, rest, hpending, hunread, hrest, haccepts, rfl⟩ |
    ⟨τ, g, rest, hpending, hunread, hrest, haccepts, rfl⟩ := hcases
  · simp [settled, passing, hraised, Yielded.andThen_raised]
  · simp [settled, passing, hpending, Yielded.andThen_raised]
  · simp [settled, passing, hraised, hpending, hunread, Yielded.collect]
  · rw [hrest, summarizePasses_cons_state, summarizePass_eq_collect haccepts]
    simp [settled, passing, hraised, hpending, hunread, Yielded.collect]
  · rw [hrest, summarizePasses_cons_state, summarizePass_of_not_accepts haccepts]
    simp [settled, passing, hpending, hunread, Yielded.collect]

theorem settled_ticks {t : ℚ} {st st' : Generator α} {is : List (Event α)}
    (h : Run (step t) (fun _ e => e = .tick) st is st') : st'.settled t = st.settled t := by
  refine h.invariant (P := fun _ s => s.settled t = st.settled t) rfl ?_
  intro is s e s' hs htick hstep
  subst htick
  exact (settled_tick hstep).trans hs

omit [One α] in
theorem settled_exhausted {t : ℚ} {st : Generator α} (h : st.tick t = none) :
    st.settled t = st.receiver := by
  unfold settled
  split
  · rename_i hraised
    obtain ⟨-, -, hrest⟩ := exhausted h hraised.1
    rw [hrest]
    rfl
  · rfl

end Generator

end SqlalchemyCollectd
