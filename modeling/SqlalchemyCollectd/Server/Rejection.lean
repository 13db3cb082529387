import SqlalchemyCollectd.Lib.Noninterference
import SqlalchemyCollectd.Lib.Transition
import SqlalchemyCollectd.Server.Steps

/-!
# SqlalchemyCollectd.Server.Rejection

What a rejected message leaves behind.

`_set_stats` raises when one of two buckets refuses the timestamp, and by then it
has noted an interval in that bucket and perhaps stored the message in the other
one. A rejected message is without effect only when everything it would leave is
there already (`Redundant`), and then it is without any: the operations that
follow do the same as if it had never arrived.

Two states are the same (`Same`) when their buckets have the same clocks, the same
intervals and the same contents. The order in which a dictionary lists its entries
is left out, as Python does when it compares two; nothing the receiver does
depends on it (`Same.outcome_eq`).
-/

namespace SqlalchemyCollectd

namespace TimeBucket

variable {κ ν : Type} [DecidableEq κ]

/-- The same clock, the same interval and the same contents. -/
structure Same (b b' : TimeBucket κ ν) : Prop where
  lastTimestamp : b.lastTimestamp = b'.lastTimestamp
  lastInterval : b.lastInterval = b'.lastInterval
  get? : ∀ k, b.bucket.get? k = b'.bucket.get? k

namespace Same

variable {b b' b'' : TimeBucket κ ν}

theorem refl (b : TimeBucket κ ν) : b.Same b := ⟨rfl, rfl, fun _ => rfl⟩

theorem trans (h : b.Same b') (h' : b'.Same b'') : b.Same b'' :=
  ⟨h.lastTimestamp.trans h'.lastTimestamp, h.lastInterval.trans h'.lastInterval,
    fun k => (h.get? k).trans (h'.get? k)⟩

theorem accepts_iff (h : b.Same b') (timestamp : ℚ) (interval : Option ℚ) :
    b.Accepts timestamp interval ↔ b'.Accepts timestamp interval := by
  rw [TimeBucket.accepts_iff, TimeBucket.accepts_iff, h.lastTimestamp, h.lastInterval]

theorem refusal_eq (h : b.Same b') (timestamp : ℚ) (interval : Option ℚ) :
    b.refusal timestamp interval = b'.refusal timestamp interval := by
  rw [refusal, refusal, h.lastTimestamp, h.lastInterval]

theorem visit (h : b.Same b') (timestamp : ℚ) (interval : Option ℚ) :
    (b.visit timestamp interval).Same (b'.visit timestamp interval) where
  lastTimestamp := by simp only [visit_lastTimestamp, h.accepts_iff, h.lastTimestamp]
  lastInterval := by simp only [visit_lastInterval, h.lastInterval]
  get? k := by simp only [get?_visit, h.accepts_iff, h.get?]

theorem putState (h : b.Same b') (timestamp interval : ℚ) (key : κ) (data : ν) :
    (b.putState timestamp interval key data).Same (b'.putState timestamp interval key data) where
  lastTimestamp := by simp only [putState_lastTimestamp, h.accepts_iff, h.lastTimestamp]
  lastInterval := by simp only [putState_lastInterval]
  get? k := by simp only [get?_putState, h.accepts_iff, h.get?]

theorem getItem_eq (h : b.Same b') : b.getItem = b'.getItem := by
  funext k
  rw [getItem, getItem, h.get?]

end Same

/-- A refused `put` leaves its interval. -/
theorem same_putState_of_not_accepts {timestamp interval : ℚ} {b : TimeBucket κ ν}
    (h : ¬b.Accepts timestamp interval) (key : κ) (data : ν) :
    b.Same (b.putState timestamp interval key data) ↔ b.lastInterval = interval := by
  constructor
  · intro hsame
    rw [hsame.lastInterval, putState_lastInterval]
  · intro hinterval
    refine ⟨?_, ?_, fun k => ?_⟩
    · rw [putState_lastTimestamp, if_neg h]
    · rw [putState_lastInterval, hinterval]
    · rw [get?_putState, if_neg h]

/-- What an accepted `put` finds when it has nothing to do: its own record, and no
other that is stale. -/
structure Holds (timestamp interval : ℚ) (key : κ) (data : ν) (b : TimeBucket κ ν) : Prop where
  clock : b.lastTimestamp = timestamp
  stored : b.bucket.get? key = some ⟨timestamp, interval, data⟩
  fresh : ∀ k, k ≠ key → ∀ r, b.bucket.get? k = some r → r.fresh timestamp

theorem holds_iff {timestamp interval : ℚ} {key : κ} {data : ν} {b : TimeBucket κ ν}
    (h : b.Accepts timestamp interval) :
    b.Holds timestamp interval key data ↔
      b.lastTimestamp = (b.putState timestamp interval key data).lastTimestamp ∧
        ∀ k, b.bucket.get? k = (b.putState timestamp interval key data).bucket.get? k := by
  rw [putState_lastTimestamp, if_pos h]
  simp only [get?_putState, if_pos h]
  constructor
  · rintro ⟨hclock, hstored, hfresh⟩
    refine ⟨hclock, fun k => ?_⟩
    by_cases hk : k = key
    · rw [if_pos hk, hk, hstored]
    · rw [if_neg hk, Record.filter_fresh (hfresh k hk)]
  · rintro ⟨hclock, hget⟩
    refine ⟨hclock, (hget key).trans (if_pos rfl), fun k hk r hr => ?_⟩
    have hkept := hget k
    rw [if_neg hk, hr] at hkept
    exact (Option.filter_eq_some_iff.mp hkept.symm).2

/-- An accepted `put` that changes nothing. -/
theorem same_putState_of_accepts {timestamp interval : ℚ} {key : κ} {data : ν}
    {b : TimeBucket κ ν} (h : b.Accepts timestamp interval) :
    b.Same (b.putState timestamp interval key data) ↔
      b.Holds timestamp interval key data ∧ b.lastInterval = interval := by
  rw [holds_iff h]
  constructor
  · intro ⟨htime, hinterval, hget⟩
    exact ⟨⟨htime, hget⟩, hinterval.trans (putState_lastInterval ..)⟩
  · intro ⟨⟨htime, hget⟩, hinterval⟩
    exact ⟨htime, hinterval.trans (putState_lastInterval ..).symm, hget⟩

/-- An accepted `put` and a refused one in the same bucket: the second leaves only its
interval. -/
theorem same_putState_putState {timestamp first second : ℚ} {key : κ} {data data' : ν}
    {b : TimeBucket κ ν} (h : b.Accepts timestamp first)
    (h' : ¬(b.putState timestamp first key data).Accepts timestamp second) :
    b.Same ((b.putState timestamp first key data).putState timestamp second key data') ↔
      b.Holds timestamp first key data ∧ b.lastInterval = second := by
  have htime : ((b.putState timestamp first key data).putState timestamp second key
      data').lastTimestamp = (b.putState timestamp first key data).lastTimestamp := by
    rw [putState_lastTimestamp, if_neg h']
  have hget : ∀ k, ((b.putState timestamp first key data).putState timestamp second key
      data').bucket.get? k = (b.putState timestamp first key data).bucket.get? k := by
    intro k
    rw [get?_putState, if_neg h']
  rw [holds_iff h]
  constructor
  · intro ⟨htime', hinterval, hget'⟩
    exact ⟨⟨htime'.trans htime, fun k => (hget' k).trans (hget k)⟩,
      hinterval.trans (putState_lastInterval ..)⟩
  · intro ⟨⟨htime', hget'⟩, hinterval⟩
    exact ⟨htime'.trans htime.symm, hinterval.trans (putState_lastInterval ..).symm,
      fun k => (hget' k).trans (hget k).symm⟩

end TimeBucket

namespace Receiver

open TimeBucket

variable {α : Type}

/-- The same three buckets. -/
def Same (s s' : Receiver α) : Prop := ∀ τ, (s.buckets τ).Same (s'.buckets τ)

namespace Same

variable {s s' s'' : Receiver α}

theorem refl (s : Receiver α) : s.Same s := fun _ => .refl _

theorem trans (h : s.Same s') (h' : s'.Same s'') : s.Same s'' := fun τ => (h τ).trans (h' τ)

theorem setBucket (h : s.Same s') {τ : InternalType} {b b' : TimeBucket ProcessKey (Message α)}
    (hb : b.Same b') : (s.setBucket τ b).Same (s'.setBucket τ b') := by
  intro σ
  by_cases hσ : σ = τ
  · rw [hσ, setBucket_same, setBucket_same]
    exact hb
  · rw [setBucket_of_ne hσ, setBucket_of_ne hσ]
    exact h σ

theorem storeState (h : s.Same s') (τ : InternalType) (m : Message α) :
    (s.storeState τ m).Same (s'.storeState τ m) :=
  h.setBucket ((h τ).putState ..)

theorem countState [One α] (h : s.Same s') (m : Message α) :
    (s.countState m).Same (s'.countState m) :=
  h.setBucket ((h .process).putState ..)

theorem groupsOf_eq {b b' : TimeBucket ProcessKey (Message α)} (h : b.Same b') (g : Grouping) :
    groupsOf g b = groupsOf g b' := by
  have hperm : b.sortedKeys.Perm b'.sortedKeys :=
    (List.perm_insertionSort ..).trans
      ((OrderedDict.perm_keys h.get?).trans (List.perm_insertionSort ..).symm)
  have hsorted : b.sortedKeys = b'.sortedKeys :=
    hperm.eq_of_pairwise' (b.sortedKeys_strict.imp le_of_lt) (b'.sortedKeys_strict.imp le_of_lt)
  exact congrArg g.groups hsorted

section Summarize

variable [Add α] [Zero α]

theorem summarizePass (h : s.Same s') (timestamp : ℚ) (τ : InternalType) (g : Grouping) :
    (Receiver.summarizePass timestamp τ g s).1 = (Receiver.summarizePass timestamp τ g s').1 ∧
      (Receiver.summarizePass timestamp τ g s).2.Same
        (Receiver.summarizePass timestamp τ g s').2 := by
  rw [summarizePass_state, summarizePass_state]
  refine ⟨?_, h.setBucket ((h τ).visit timestamp none)⟩
  have hvisit := (h τ).visit timestamp none
  have hgroup : summarizeGroup g timestamp ((s.buckets τ).visit timestamp none) =
      summarizeGroup g timestamp ((s'.buckets τ).visit timestamp none) := by
    funext keys
    rw [summarizeGroup, summarizeGroup, readRecords, readRecords, hvisit.getItem_eq]
  unfold Receiver.summarizePass onBucket getData
  rw [getBucket_eq, getBucket_eq, (h τ).refusal_eq]
  by_cases haccepts : (s.buckets τ).Accepts timestamp none
  · rw [if_pos haccepts, if_pos (((h τ).accepts_iff timestamp none).mp haccepts)]
    simp only [setBucket_same]
    rw [hgroup, groupsOf_eq hvisit]
  · rw [if_neg haccepts, if_neg (mt ((h τ).accepts_iff timestamp none).mpr haccepts)]

theorem summarizePasses (timestamp : ℚ) (ps : List (InternalType × Grouping))
    {s s' : Receiver α} (h : s.Same s') :
    (Receiver.summarizePasses timestamp ps s).1 = (Receiver.summarizePasses timestamp ps s').1 ∧
      (Receiver.summarizePasses timestamp ps s).2.Same
        (Receiver.summarizePasses timestamp ps s').2 := by
  induction ps generalizing s s' with
  | nil => exact ⟨rfl, h⟩
  | cons p ps ih =>
      obtain ⟨τ, g⟩ := p
      obtain ⟨hyielded, hstate⟩ := h.summarizePass timestamp τ g
      rw [Receiver.summarizePasses, Receiver.summarizePasses]
      dsimp only
      rw [hyielded]
      split
      · exact ⟨rfl, hstate⟩
      · obtain ⟨hrest, hlast⟩ := ih hstate
        exact ⟨by rw [hrest], hlast⟩

end Summarize

end Same

/-! ### Same state, same behaviour -/

/-- What an operation comes to: whether a message raises, and what; and what a summary
yields. -/
inductive Outcome (α : Type)
  | message (raised : Option PyError)
  | summary (yielded : Yielded (Values α))
  deriving DecidableEq

variable [Add α] [Zero α] [One α]

def outcome (s : Receiver α) : Op α → Outcome α
  | .setStats m =>
      match setStats m s with
      | .ok _ _ => .message none
      | .error e _ => .message (some e)
  | .summarize timestamp => .summary (summarize timestamp s).1

/-- What the operations of a run come to, from a given state on. -/
def outcomes (s : Receiver α) (ops : List (Op α)) : List (Outcome α) :=
  Noninterference.observations step (fun s op => some (s.outcome op)) s ops

namespace Same

variable {s s' : Receiver α}

theorem setStats_eq (h : s.Same s') (m : Message α) :
    s.outcome (.setStats m) = s'.outcome (.setStats m) ∧
      (s.step (.setStats m)).Same (s'.step (.setStats m)) := by
  unfold outcome step
  dsimp only
  cases hτ : InternalType.ofName? m.type with
  | none =>
      rw [setStats_unknown hτ, setStats_unknown hτ]
      exact ⟨rfl, h⟩
  | some τ =>
      have hmessage : s.AcceptsMessage τ m ↔ s'.AcceptsMessage τ m := (h τ).accepts_iff ..
      have hstore := h.storeState τ m
      have hprocess : (s.storeState τ m).AcceptsProcess m ↔
          (s'.storeState τ m).AcceptsProcess m := (hstore .process).accepts_iff ..
      rw [Receiver.setStats_eq hτ, Receiver.setStats_eq hτ, (h τ).refusal_eq,
        (hstore .process).refusal_eq]
      simp only [hmessage, hprocess]
      split_ifs
      · exact ⟨rfl, hstore⟩
      · exact ⟨rfl, hstore.countState m⟩
      · exact ⟨rfl, hstore.countState m⟩
      · exact ⟨rfl, hstore⟩

/-- Nothing the receiver does tells two equal states apart. -/
theorem outcome_eq (h : s.Same s') (op : Op α) :
    s.outcome op = s'.outcome op ∧ (s.step op).Same (s'.step op) := by
  cases op with
  | setStats m => exact h.setStats_eq m
  | summarize timestamp =>
      obtain ⟨hyielded, hstate⟩ := summarizePasses timestamp passes h
      exact ⟨congrArg Outcome.summary hyielded, hstate⟩

theorem outcomes_eq (h : s.Same s') (ops : List (Op α)) : s.outcomes ops = s'.outcomes ops :=
  Noninterference.observations_congr (R := Same)
    (fun op h => ⟨congrArg some (h.outcome_eq op).1, (h.outcome_eq op).2⟩) h

end Same

/-! ### Rejected messages -/

/-- The message is rejected: `_set_stats` raises `ValueError`. -/
def rejects (s : Receiver α) : Op α → Bool
  | .setStats m =>
      match setStats m s with
      | .error (.valueError ..) _ => true
      | _ => false
  | .summarize _ => false

/-- What a message would leave behind before it is rejected is there already. -/
def Redundant (τ : InternalType) (m : Message α) (s : Receiver α) : Prop :=
  if s.AcceptsMessage τ m then
    (s.buckets τ).Holds m.time (m.interval * 2) m.key m ∧
      (τ ≠ .process → (s.buckets τ).lastInterval = m.interval * 2) ∧
      (s.buckets .process).lastInterval = m.interval * 5
  else (s.buckets τ).lastInterval = m.interval * 2

omit [Add α] [Zero α] in
/-- How a message can be rejected: by the bucket of its type, or by the process bucket
after it was stored. -/
theorem rejected_cases {m : Message α} {τ : InternalType}
    (hτ : InternalType.ofName? m.type = some τ) {s s' : Receiver α} {e : PyError}
    (h : setStats m s = .error e s') :
    ¬s.AcceptsMessage τ m ∧ s' = s.storeState τ m ∨
      s.AcceptsMessage τ m ∧ ¬(s.storeState τ m).AcceptsProcess m ∧
        s' = (s.storeState τ m).countState m := by
  rw [setStats_eq hτ] at h
  split_ifs at h with hmessage htoken hprocess
  · injection h with _ hs
    exact Or.inr ⟨hmessage, hprocess, hs.symm⟩
  · injection h with _ hs
    exact Or.inl ⟨hmessage, hs.symm⟩

omit [One α] [Add α] [Zero α] in
theorem same_setBucket {τ : InternalType} {b : TimeBucket ProcessKey (Message α)}
    {s : Receiver α} : s.Same (s.setBucket τ b) ↔ (s.buckets τ).Same b := by
  constructor
  · intro h
    have hτ := h τ
    rwa [setBucket_same] at hτ
  · intro h σ
    by_cases hσ : σ = τ
    · rw [hσ, setBucket_same]
      exact h
    · rw [setBucket_of_ne hσ]
      exact .refl _

omit [Add α] [Zero α] in
/-- **When a rejected message is without effect.** -/
theorem same_iff_redundant {m : Message α} {τ : InternalType}
    (hτ : InternalType.ofName? m.type = some τ) {s s' : Receiver α} {e : PyError}
    (h : setStats m s = .error e s') : s.Same s' ↔ Redundant τ m s := by
  rcases rejected_cases hτ h with ⟨hmessage, rfl⟩ | ⟨hmessage, hprocess, rfl⟩
  · rw [Redundant, if_neg hmessage, storeState, same_setBucket]
    exact same_putState_of_not_accepts hmessage m.key m
  · rw [Redundant, if_pos hmessage]
    by_cases hτp : τ = .process
    · -- both accesses go to the process bucket
      subst hτp
      have hstored : (s.storeState .process m).buckets .process =
          (s.buckets .process).putState m.time (m.interval * 2) m.key m := setBucket_same ..
      have hstate : (s.storeState .process m).countState m = s.setBucket .process
          (((s.buckets .process).putState m.time (m.interval * 2) m.key m).putState m.time
            (m.interval * 5) m.key m.processRecord) := by
        rw [countState, hstored, storeState, setBucket_setBucket]
      rw [AcceptsProcess, hstored] at hprocess
      rw [hstate, same_setBucket, same_putState_putState hmessage hprocess]
      exact ⟨fun ⟨hholds, hinterval⟩ => ⟨hholds, fun h => absurd rfl h, hinterval⟩,
        fun ⟨hholds, _, hinterval⟩ => ⟨hholds, hinterval⟩⟩
    · have hother : (s.storeState τ m).buckets .process = s.buckets .process :=
        setBucket_of_ne (Ne.symm hτp) ..
      rw [AcceptsProcess, hother] at hprocess
      have hown : (s.buckets τ).Same
          ((s.buckets τ).putState m.time (m.interval * 2) m.key m) ↔ _ :=
        same_putState_of_accepts hmessage
      have hcount := same_putState_of_not_accepts hprocess m.key m.processRecord
      constructor
      · intro hsame
        have hτsame := hsame τ
        have hpsame := hsame .process
        rw [buckets_countState, if_neg hτp, buckets_storeState, if_pos rfl] at hτsame
        rw [buckets_countState, if_pos rfl, hother] at hpsame
        exact ⟨(hown.mp hτsame).1, fun _ => (hown.mp hτsame).2, hcount.mp hpsame⟩
      · intro ⟨hholds, hinterval, hprocessInterval⟩ σ
        rw [buckets_countState]
        split
        · rename_i hσ
          rw [hσ, hother]
          exact hcount.mpr hprocessInterval
        · rw [buckets_storeState]
          split
          · rename_i hσ
            rw [hσ]
            exact hown.mpr ⟨hholds, hinterval hτp⟩
          · exact .refl _

/-! ### Runs with rejected messages -/

omit [Add α] [Zero α] in
theorem rejects_iff {m : Message α} {s : Receiver α} :
    s.rejects (.setStats m) ↔ ∃ lastTimestamp timestamp oldestToAccept s',
      setStats m s = .error (.valueError lastTimestamp timestamp oldestToAccept) s' := by
  unfold rejects
  dsimp only
  split
  · rename_i hresult
    simp [hresult]
  · rename_i hother
    refine iff_of_false (by decide) ?_
    intro ⟨lastTimestamp, timestamp, oldestToAccept, s', hresult⟩
    exact hother _ _ _ _ hresult

theorem step_of_error {m : Message α} {s s' : Receiver α} {e : PyError}
    (h : setStats m s = .error e s') : s.step (.setStats m) = s' := by
  unfold step
  dsimp only
  rw [h]

/-- The operations of a run that are not rejected. -/
def heard (ops : List (Op α)) : List (Op α) :=
  Transition.kept step (fun s op => s.rejects op = true) {} ops

/-- **A rejected message has no effect exactly when it is redundant**: after any run,
the buckets are what they were if and only if everything the message leaves behind
was there. In a run where every rejected message is redundant, none of them is ever
noticed. -/
theorem rejected_message (ops : List (Op α)) :
    (∀ m τ lastTimestamp timestamp oldestToAccept s', InternalType.ofName? m.type = some τ →
      setStats m (run ops) = .error (.valueError lastTimestamp timestamp oldestToAccept) s' →
      ((run ops).Same s' ↔ Redundant τ m (run ops))) ∧
    ((∀ before m after τ, ops = before ++ .setStats m :: after →
        InternalType.ofName? m.type = some τ → (run before).rejects (.setStats m) →
        Redundant τ m (run before)) →
      (run (heard ops)).Same (run ops) ∧
        ∀ later, (run (heard ops)).outcomes later = (run ops).outcomes later) := by
  refine ⟨fun m τ _ _ _ s' hτ hrejected => same_iff_redundant hτ hrejected, fun hredundant => ?_⟩
  have hsame : (run (heard ops)).Same (run ops) := by
    refine Transition.foldl_kept Same.refl Same.trans (fun op h => (h.outcome_eq op).2) ?_
    intro before op after hsplit hdrop
    cases op with
    | summarize timestamp => exact absurd hdrop (by simp [rejects])
    | setStats m =>
        obtain ⟨lastTimestamp, timestamp, oldestToAccept, s', hrejected⟩ := rejects_iff.mp hdrop
        cases hτ : InternalType.ofName? m.type with
        | none =>
            rw [setStats_unknown hτ] at hrejected
            cases hrejected
        | some τ =>
            have hstep : (run before).step (.setStats m) = s' := step_of_error hrejected
            show (run before).Same ((run before).step (.setStats m))
            rw [hstep]
            exact (same_iff_redundant hτ hrejected).mpr (hredundant before m after τ hsplit hτ hdrop)
  exact ⟨hsame, hsame.outcomes_eq⟩

/-- A message that the process bucket refuses, sent twice: the second time it is
redundant. -/
def refusedTwice : List (Op ℤ) :=
  [.setStats ⟨"sqlalchemy_totals", "1:aa", "sqlalchemy", "web", "h1", 1000, 10, [1, 1, 1, 1]⟩,
    .setStats ⟨"sqlalchemy_pool", "2:bb", "sqlalchemy", "web", "h1", 900, 10, [1, 0, 1, 0, 1]⟩]

theorem rejected_message_refusedTwice :
    ∃ s', setStats ⟨"sqlalchemy_pool", "2:bb", "sqlalchemy", "web", "h1", 900, 10, [1, 0, 1, 0, 1]⟩
        (run refusedTwice) = .error (.valueError 1000 900 60) s' ∧
      (run refusedTwice).Same s' := by
  let m : Message ℤ :=
    ⟨"sqlalchemy_pool", "2:bb", "sqlalchemy", "web", "h1", 900, 10, [1, 0, 1, 0, 1]⟩
  have hrejects : (run refusedTwice).outcome (.setStats m) =
      .message (some (.valueError 1000 900 60)) := by decide +kernel
  have hentries : ((run refusedTwice).buckets .pool).bucket.entries =
      [(m.key, ⟨900, 20, m⟩)] := by decide +kernel
  have hredundant : Redundant .pool m (run refusedTwice) := by
    have hmessage : (run refusedTwice).AcceptsMessage .pool m := by decide +kernel
    have hinterval : ((run refusedTwice).buckets .pool).lastInterval = m.interval * 2 := by
      decide +kernel
    rw [Redundant, if_pos hmessage]
    refine ⟨⟨by decide +kernel, by decide +kernel, ?_⟩, fun _ => hinterval, by decide +kernel⟩
    intro k hk r hr
    rw [OrderedDict.get?_eq_some_iff, hentries, List.mem_singleton] at hr
    exact absurd (congrArg Prod.fst hr) hk
  cases hresult : setStats m (run refusedTwice) with
  | ok _ s' => simp [outcome, hresult] at hrejects
  | error e s' =>
      obtain rfl : e = .valueError 1000 900 60 := by simpa [outcome, hresult] using hrejects
      exact ⟨s', rfl, ((rejected_message refusedTwice).1 m .pool _ _ _ s' (by decide) hresult).mpr
        hredundant⟩

/-- A rejected message with a short interval, and the summary after it fails. -/
theorem rejected_message_noticed :
    ∃ (ops : List (Op ℤ)) (m : Message ℤ) (lastTimestamp timestamp : ℚ) (oldestToAccept : ℤ)
      (s' : Receiver ℤ), InternalType.ofName? m.type = some .pool ∧
      setStats m (run ops) = .error (.valueError lastTimestamp timestamp oldestToAccept) s' ∧
      s'.outcomes [.summarize 980] ≠ (run ops).outcomes [.summarize 980] ∧
      ¬(run ops).Same s' := by
  let ops : List (Op ℤ) :=
    [.setStats ⟨"sqlalchemy_pool", "1:aa", "sqlalchemy", "web", "h1", 1000, 10, [1, 0, 1, 0, 1]⟩]
  let m : Message ℤ :=
    ⟨"sqlalchemy_pool", "2:bb", "sqlalchemy", "web", "h1", 900, 5, [1, 0, 1, 0, 1]⟩
  have hrejects : (run ops).rejects (.setStats m) := by decide +kernel
  obtain ⟨lastTimestamp, timestamp, oldestToAccept, s', hrejected⟩ := rejects_iff.mp hrejects
  have hdiffer : s'.outcomes [.summarize 980] ≠ (run ops).outcomes [.summarize 980] := by
    rw [← step_of_error hrejected]
    decide +kernel
  exact ⟨ops, m, lastTimestamp, timestamp, oldestToAccept, s', by decide, hrejected, hdiffer,
    fun hsame => hdiffer (hsame.outcomes_eq _).symm⟩

end Receiver

end SqlalchemyCollectd
