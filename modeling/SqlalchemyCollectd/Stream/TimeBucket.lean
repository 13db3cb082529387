import SqlalchemyCollectd.Lib.OrderedDict
import SqlalchemyCollectd.Python

/-!
# SqlalchemyCollectd.Stream.TimeBucket

`TimeBucket`: the latest object for each key, without the stale ones.

Every access goes through `_get_bucket`, which notes the interval it is given,
refuses a timestamp too far behind the last accepted one, and otherwise sweeps
out what has gone stale. The two windows differ: acceptance looks at the interval
that was passed last and at the shared clock of the bucket, expiry at the
interval of each record. The interval is noted before the check, so a refused
access still leaves it behind.

Accesses run in `EStateM`, which keeps the state when an exception is raised.
The rest of the development reads an access as `Accepts` (does it raise?) and
`visit` (the bucket afterwards).
-/

namespace SqlalchemyCollectd

/-- `interval_factor`, read as the exact ratio. -/
def intervalFactor : ℚ := 6 / 5

/-- `int(interval * interval_factor)`. -/
def window (interval : ℚ) : ℤ := pyInt (interval * intervalFactor)

theorem window_nonneg {interval : ℚ} (h : 0 ≤ interval) : 0 ≤ window interval :=
  pyInt_nonneg (mul_nonneg h (by norm_num [intervalFactor]))

/-- The triple stored under a key. -/
structure Record (ν : Type) where
  timestamp : ℚ
  interval : ℚ
  value : ν
  deriving DecidableEq

namespace Record

variable {ν : Type}

/-- The record has not gone stale: the negation of the test of the sweep. -/
def fresh (now : ℚ) (r : Record ν) : Bool := !decide (r.timestamp < now - window r.interval)

theorem fresh_iff {now : ℚ} {r : Record ν} :
    r.fresh now ↔ now - window r.interval ≤ r.timestamp := by
  simp [fresh]

/-- What is stale stays stale. -/
theorem fresh_of_le {now later : ℚ} {r : Record ν} (h : now ≤ later) (hr : r.fresh later) :
    r.fresh now := by
  rw [fresh_iff] at hr ⊢
  linarith

/-- Where nothing is stale, nothing is swept. -/
theorem filter_fresh {now : ℚ} {o : Option (Record ν)} (h : ∀ r ∈ o, r.fresh now) :
    (o.filter fun r => r.fresh now) = o := by
  cases o with
  | none => rfl
  | some r => exact Option.filter_eq_some_iff.mpr ⟨rfl, h r rfl⟩

end Record

/-- A `TimeBucket` with keys in `κ` and values in `ν`. -/
structure TimeBucket (κ : Type) (ν : Type) where
  bucket : OrderedDict κ (Record ν) := .empty
  lastTimestamp : ℚ := 0
  lastInterval : ℚ := 0

namespace TimeBucket

variable {κ : Type} {ν : Type}

/-- `self.last_interval = interval`, unless the interval is `None`. -/
def note (interval : Option ℚ) (b : TimeBucket κ ν) : TimeBucket κ ν :=
  { b with lastInterval := interval.getD b.lastInterval }

/-- The timestamp is too old for the bucket. -/
def TooOld (timestamp : ℚ) (b : TimeBucket κ ν) : Prop :=
  b.lastInterval ≠ 0 ∧ pyInt timestamp < pyInt b.lastTimestamp - window b.lastInterval

instance (timestamp : ℚ) (b : TimeBucket κ ν) : Decidable (b.TooOld timestamp) :=
  inferInstanceAs (Decidable (_ ∧ _))

/-- Delete every stale record and move the clock. -/
def sweep (timestamp : ℚ) (b : TimeBucket κ ν) : TimeBucket κ ν :=
  { b with bucket := b.bucket.filter fun _ r => r.fresh timestamp, lastTimestamp := timestamp }

/-- `TimeBucket._get_bucket`. The facade it returns is the bucket itself. -/
def getBucket (timestamp : ℚ) (interval : Option ℚ) :
    EStateM PyError (TimeBucket κ ν) Unit := fun b =>
  let b := b.note interval
  if b.TooOld timestamp then
    .error (.valueError b.lastTimestamp timestamp (window b.lastInterval)) b
  else .ok () (b.sweep timestamp)

/-- `TimeBucket.get_data`. -/
def getData (currentTime : ℚ) (interval : Option ℚ) : EStateM PyError (TimeBucket κ ν) Unit :=
  getBucket currentTime interval

/-! ### What an access does -/

/-- The access does not raise. -/
def Accepts (timestamp : ℚ) (interval : Option ℚ) (b : TimeBucket κ ν) : Prop :=
  ¬(b.note interval).TooOld timestamp

instance (timestamp : ℚ) (interval : Option ℚ) (b : TimeBucket κ ν) :
    Decidable (b.Accepts timestamp interval) :=
  inferInstanceAs (Decidable ¬_)

/-- The bucket after an access. -/
def visit (timestamp : ℚ) (interval : Option ℚ) (b : TimeBucket κ ν) : TimeBucket κ ν :=
  if b.Accepts timestamp interval then (b.note interval).sweep timestamp else b.note interval

/-- The exception of a refused access. -/
def refusal (timestamp : ℚ) (interval : Option ℚ) (b : TimeBucket κ ν) : PyError :=
  .valueError b.lastTimestamp timestamp (window (interval.getD b.lastInterval))

theorem accepts_iff {timestamp : ℚ} {interval : Option ℚ} {b : TimeBucket κ ν} :
    b.Accepts timestamp interval ↔
      (interval.getD b.lastInterval ≠ 0 → pyInt b.lastTimestamp -
        window (interval.getD b.lastInterval) ≤ pyInt timestamp) := by
  simp only [Accepts, TooOld, note, not_and, not_lt]

theorem getBucket_eq (timestamp : ℚ) (interval : Option ℚ) (b : TimeBucket κ ν) :
    getBucket timestamp interval b =
      if b.Accepts timestamp interval then .ok () (b.visit timestamp interval)
      else .error (b.refusal timestamp interval) (b.visit timestamp interval) := by
  unfold getBucket visit
  by_cases h : b.Accepts timestamp interval
  · rw [if_pos h, if_pos h]
    exact if_neg h
  · rw [if_neg h, if_neg h]
    exact if_pos (not_not.mp h)

@[simp] theorem visit_lastInterval (timestamp : ℚ) (interval : Option ℚ) (b : TimeBucket κ ν) :
    (b.visit timestamp interval).lastInterval = interval.getD b.lastInterval := by
  unfold visit
  split <;> rfl

theorem visit_lastTimestamp (timestamp : ℚ) (interval : Option ℚ) (b : TimeBucket κ ν) :
    (b.visit timestamp interval).lastTimestamp =
      if b.Accepts timestamp interval then timestamp else b.lastTimestamp := by
  unfold visit
  split <;> rfl

/-- A second visit at the same time changes nothing, whether it is accepted or not. -/
theorem visit_visit {timestamp : ℚ} {b : TimeBucket κ ν} (h : b.Accepts timestamp none) :
    (b.visit timestamp none).visit timestamp none = b.visit timestamp none := by
  have hsweep : ∀ b : TimeBucket κ ν,
      (((b.note none).sweep timestamp).note none).sweep timestamp =
        (b.note none).sweep timestamp := by
    intro b
    unfold sweep note
    dsimp only
    rw [OrderedDict.filter_filter_self]
    rfl
  by_cases h' : (b.visit timestamp none).Accepts timestamp none
  · rw [visit, if_pos h', visit, if_pos h, hsweep]
  · rw [visit, if_neg h']
    rfl

/-- The bucket accepts so many accesses at `t` in a row. -/
def AcceptsTimes (t : ℚ) : ℕ → TimeBucket κ ν → Prop
  | 0, _ => True
  | n + 1, b => b.Accepts t none ∧ AcceptsTimes t n (b.visit t none)

instance decidableAcceptsTimes (t : ℚ) :
    ∀ (n : ℕ) (b : TimeBucket κ ν), Decidable (b.AcceptsTimes t n)
  | 0, _ => .isTrue trivial
  | n + 1, b =>
      have := decidableAcceptsTimes t n (b.visit t none)
      inferInstanceAs (Decidable (b.Accepts t none ∧ (b.visit t none).AcceptsTimes t n))

/-! ### Reading and writing -/

variable [DecidableEq κ]

/-- `DictFacade.__setitem__`, of the facade for a timestamp and an interval. -/
def setItem (timestamp interval : ℚ) (key : κ) (value : ν) : EStateM PyError (TimeBucket κ ν) Unit :=
  fun b => .ok () { b with bucket := b.bucket.set key ⟨timestamp, interval, value⟩ }

/-- `DictFacade.get`. -/
def getItem? (b : TimeBucket κ ν) (key : κ) : Option ν := (b.bucket.get? key).map Record.value

/-- `DictFacade.__getitem__`. -/
def getItem (b : TimeBucket κ ν) (key : κ) : Except PyError ν :=
  match b.bucket.get? key with
  | some r => .ok r.value
  | none => .error .keyError

/-- `TimeBucket.put`. -/
def put (timestamp interval : ℚ) (key : κ) (data : ν) : EStateM PyError (TimeBucket κ ν) Unit := do
  getBucket timestamp interval
  setItem timestamp interval key data

/-- `TimeBucket.get`. -/
def get (currentTime : ℚ) (key : κ) (interval : Option ℚ) :
    EStateM PyError (TimeBucket κ ν) (Option ν) := do
  getBucket currentTime interval
  return (← EStateM.get).getItem? key

/-- A record survives an access unless the access is accepted and finds it stale. -/
theorem get?_visit (timestamp : ℚ) (interval : Option ℚ) (b : TimeBucket κ ν) (k : κ) :
    (b.visit timestamp interval).bucket.get? k =
      if b.Accepts timestamp interval then
        (b.bucket.get? k).filter fun r => r.fresh timestamp
      else b.bucket.get? k := by
  unfold visit
  split
  · exact OrderedDict.get?_filter ..
  · rfl

/-- The bucket after a `put`. -/
def putState (timestamp interval : ℚ) (key : κ) (data : ν) (b : TimeBucket κ ν) :
    TimeBucket κ ν :=
  if b.Accepts timestamp interval then
    { b.visit timestamp interval with
      bucket := (b.visit timestamp interval).bucket.set key ⟨timestamp, interval, data⟩ }
  else b.visit timestamp interval

theorem put_eq (timestamp interval : ℚ) (key : κ) (data : ν) (b : TimeBucket κ ν) :
    put timestamp interval key data b =
      if b.Accepts timestamp interval then .ok () (b.putState timestamp interval key data)
      else .error (b.refusal timestamp interval) (b.putState timestamp interval key data) := by
  unfold put putState
  simp only [bind, EStateM.bind, getBucket_eq]
  by_cases h : b.Accepts timestamp interval
  · simp [h, setItem]
  · simp [h]

@[simp] theorem putState_lastInterval (timestamp interval : ℚ) (key : κ) (data : ν)
    (b : TimeBucket κ ν) : (b.putState timestamp interval key data).lastInterval = interval := by
  unfold putState
  split <;> exact visit_lastInterval ..

theorem putState_lastTimestamp (timestamp interval : ℚ) (key : κ) (data : ν)
    (b : TimeBucket κ ν) :
    (b.putState timestamp interval key data).lastTimestamp =
      if b.Accepts timestamp interval then timestamp else b.lastTimestamp := by
  rw [← visit_lastTimestamp]
  unfold putState
  split <;> rfl

theorem get?_putState (timestamp interval : ℚ) (key : κ) (data : ν) (b : TimeBucket κ ν) (k : κ) :
    (b.putState timestamp interval key data).bucket.get? k =
      if b.Accepts timestamp interval then
        if k = key then some ⟨timestamp, interval, data⟩
        else (b.bucket.get? k).filter fun r => r.fresh timestamp
      else b.bucket.get? k := by
  unfold putState
  by_cases h : b.Accepts timestamp interval
  · rw [if_pos h, if_pos h]
    show ((b.visit timestamp interval).bucket.set key _).get? k = _
    rw [OrderedDict.get?_set, get?_visit, if_pos h]
  · rw [if_neg h, if_neg h, get?_visit, if_neg h]

/-- Every record has a property. -/
def Forall (P : κ → Record ν → Prop) (b : TimeBucket κ ν) : Prop :=
  ∀ k r, b.bucket.get? k = some r → P k r

theorem Forall.visit {P : κ → Record ν → Prop} {b : TimeBucket κ ν} (h : b.Forall P)
    (timestamp : ℚ) (interval : Option ℚ) : (b.visit timestamp interval).Forall P := by
  intro k r hr
  rw [get?_visit] at hr
  split at hr
  · exact h k r (Option.filter_eq_some_iff.mp hr).1
  · exact h k r hr

theorem Forall.putState {P : κ → Record ν → Prop} {b : TimeBucket κ ν} (h : b.Forall P)
    {timestamp interval : ℚ} {key : κ} {data : ν} (hnew : P key ⟨timestamp, interval, data⟩) :
    (b.putState timestamp interval key data).Forall P := by
  intro k r hr
  rw [get?_putState] at hr
  split at hr
  · split at hr
    · rename_i hk
      rw [hk, ← Option.some.inj hr]
      exact hnew
    · exact h k r (Option.filter_eq_some_iff.mp hr).1
  · exact h k r hr

/-! ### What a later time can still see

As long as the clock of a bucket has not passed `t`, the records that are fresh at
`t` are those of the last puts: sweeps up to `t` do not touch them, and a put that
is refused would have been stale at `t` anyway. -/

/-- The record of a key, unless it is stale at `t`. -/
def visible (t : ℚ) (b : TimeBucket κ ν) (k : κ) : Option (Record ν) :=
  (b.bucket.get? k).filter fun r => r.fresh t

theorem visible_visit {timestamp t : ℚ} (h : timestamp ≤ t) (interval : Option ℚ)
    (b : TimeBucket κ ν) (k : κ) : (b.visit timestamp interval).visible t k = b.visible t k := by
  unfold visible
  rw [get?_visit]
  split
  · rw [Option.filter_filter]
    congr 1
    funext r
    cases hr : r.fresh t with
    | false => exact Bool.and_false _
    | true => rw [Record.fresh_of_le h hr, Bool.and_true]
  · rfl

/-- A visit at `t` leaves exactly what can be seen from `t`. -/
theorem get?_visit_eq_visible {t : ℚ} {interval : Option ℚ} {b : TimeBucket κ ν}
    (h : b.Accepts t interval) (k : κ) :
    (b.visit t interval).bucket.get? k = b.visible t k := by
  rw [get?_visit, if_pos h, visible]

theorem visible_putState_of_ne {timestamp t : ℚ} (h : timestamp ≤ t) (interval : ℚ) {k key : κ}
    (hk : k ≠ key) (data : ν) (b : TimeBucket κ ν) :
    (b.putState timestamp interval key data).visible t k = b.visible t k := by
  rw [← visible_visit h interval b k]
  unfold visible
  rw [get?_putState, get?_visit, if_neg hk]

theorem visible_putState_self {timestamp interval : ℚ} {b : TimeBucket κ ν}
    (h : b.Accepts timestamp interval) (t : ℚ) (key : κ) (data : ν) :
    (b.putState timestamp interval key data).visible t key =
      (some ⟨timestamp, interval, data⟩ : Option (Record ν)).filter fun r => r.fresh t := by
  unfold visible
  rw [get?_putState, if_pos h, if_pos rfl]

theorem visible_putState_of_not_accepts {timestamp interval : ℚ} {b : TimeBucket κ ν}
    (h : ¬b.Accepts timestamp interval) (t : ℚ) (key : κ) (data : ν) (k : κ) :
    (b.putState timestamp interval key data).visible t k = b.visible t k := by
  unfold visible
  rw [get?_putState, if_neg h]

/-- The clock of the bucket has not passed `t`, unless it was never used. -/
structure Within (t : ℚ) (b : TimeBucket κ ν) : Prop where
  interval_nonneg : 0 ≤ b.lastInterval
  clock : b.lastTimestamp ≤ t ∨ b.lastTimestamp = 0 ∧ b.lastInterval = 0

omit [DecidableEq κ] in
theorem within_fresh (t : ℚ) : Within t ({} : TimeBucket κ ν) := ⟨le_rfl, Or.inr ⟨rfl, rfl⟩⟩

omit [DecidableEq κ] in
theorem Within.lastTimestamp_le {t : ℚ} {b : TimeBucket κ ν} (h : b.Within t) (ht : 0 ≤ t) :
    b.lastTimestamp ≤ t := by
  obtain hclock | ⟨hzero, -⟩ := h.clock
  · exact hclock
  · exact hzero.trans_le ht

omit [DecidableEq κ] in
/-- A bucket whose clock has not passed `t` accepts `t`. -/
theorem Within.accepts {t : ℚ} {b : TimeBucket κ ν} (h : b.Within t) : b.Accepts t none := by
  rw [accepts_iff, Option.getD_none]
  intro hinterval
  obtain hclock | ⟨-, hzero⟩ := h.clock
  · linarith [pyInt_mono hclock, window_nonneg h.interval_nonneg]
  · exact absurd hzero hinterval

omit [DecidableEq κ] in
theorem Within.accepts_some {t interval : ℚ} {b : TimeBucket κ ν} (h : b.Within t) (ht : 0 ≤ t)
    (hinterval : 0 ≤ interval) : b.Accepts t interval := by
  rw [accepts_iff, Option.getD_some]
  intro _
  linarith [pyInt_mono (h.lastTimestamp_le ht), window_nonneg hinterval]

omit [DecidableEq κ] in
theorem Within.visit {timestamp t : ℚ} {b : TimeBucket κ ν} (h : b.Within t)
    (ht : timestamp ≤ t) : (b.visit timestamp none).Within t := by
  refine ⟨by rw [visit_lastInterval]; exact h.interval_nonneg, ?_⟩
  rw [visit_lastInterval, visit_lastTimestamp]
  split
  · exact Or.inl ht
  · exact h.clock

theorem Within.putState {timestamp interval t : ℚ} {b : TimeBucket κ ν} (h : b.Within t)
    (ht : 0 ≤ t) (htimestamp : timestamp ≤ t) (hinterval : 0 ≤ interval) (key : κ) (data : ν) :
    (b.putState timestamp interval key data).Within t := by
  refine ⟨by rw [putState_lastInterval]; exact hinterval, Or.inl ?_⟩
  rw [putState_lastTimestamp]
  split
  · exact htimestamp
  · exact h.lastTimestamp_le ht

omit [DecidableEq κ] in
/-- **The two windows agree.** What is refused because the clock has passed it is
stale for everyone who comes after the clock. -/
theorem not_fresh_of_not_accepts {timestamp interval t : ℚ} {b : TimeBucket κ ν}
    (hinterval : 0 ≤ interval) (hclock : b.lastTimestamp ≤ t)
    (hrefused : ¬b.Accepts timestamp interval) (data : ν) :
    ¬(⟨timestamp, interval, data⟩ : Record ν).fresh t := by
  intro hfresh
  refine hrefused (accepts_iff.mpr fun _ => ?_)
  have hle : b.lastTimestamp - window interval ≤ timestamp := by
    linarith [Record.fresh_iff.mp hfresh]
  exact (pyInt_sub_le (window_nonneg hinterval)).trans (pyInt_mono hle)

end TimeBucket

end SqlalchemyCollectd
