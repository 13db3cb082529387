import SqlalchemyCollectd.Lib.Transition
import SqlalchemyCollectd.Stream.TimeBucket

/-!
# SqlalchemyCollectd.Stream.History

**A `TimeBucket` by its history.** The bucket keeps three things: a clock, an
interval and the records. After any sequence of calls on a fresh bucket all three
can be read off the calls themselves. The clock is the timestamp of the last call
that returned, the interval is the last one that was passed, by whatever call,
and a record is there while every call that returned since its put was within the
window of the record and none of them put the same key (`Stores`).

`Tracks` states this of a bucket and the calls so far; each call keeps it
(`tracks_next`), so it holds after every sequence of calls (`tracks_after`).
-/

namespace SqlalchemyCollectd

theorem window_eq_floor {i : ℚ} (h : 0 ≤ i) : window i = ⌊6 * i / 5⌋ := by
  have hfactor : i * intervalFactor = 6 * i / 5 := by
    rw [intervalFactor]
    ring
  rw [window, hfactor, pyInt, if_pos (by positivity)]

theorem pyInt_eq_floor {q : ℚ} (h : 0 ≤ q) : pyInt q = ⌊q⌋ := if_pos h

/-- A call of one of the methods of a `TimeBucket`. -/
inductive Call (κ ν : Type)
  | put (timestamp interval : ℚ) (key : κ) (data : ν)
  | get (currentTime : ℚ) (key : κ) (interval : Option ℚ)
  | getData (currentTime : ℚ) (interval : Option ℚ)
  deriving DecidableEq

namespace Call

variable {κ ν : Type}

/-- The timestamp a call is given. -/
def timestamp : Call κ ν → ℚ
  | put timestamp _ _ _ => timestamp
  | get currentTime _ _ => currentTime
  | getData currentTime _ => currentTime

/-- The interval a call is given, if any. -/
def interval : Call κ ν → Option ℚ
  | put _ interval _ _ => some interval
  | get _ _ interval => interval
  | getData _ interval => interval

/-- The call puts this key. -/
def Puts (k : κ) : Call κ ν → Prop
  | put _ _ key _ => key = k
  | _ => False

/-- The timestamp is not negative and the interval is a natural number. -/
structure Proper (c : Call κ ν) : Prop where
  timestamp_nonneg : 0 ≤ c.timestamp
  interval_nat : ∀ i ∈ c.interval, ∃ n : ℕ, i = n

/-! ### What a sequence of calls says -/

/-- The timestamp of the last of some calls, 0 if there is none. -/
def lastTimestamp (calls : List (Call κ ν)) : ℚ := (calls.getLast?.map timestamp).getD 0

/-- The last interval that some calls pass, 0 if there is none. -/
def lastInterval (calls : List (Call κ ν)) : ℚ := (calls.filterMap interval).getLast?.getD 0

/-- The last put of a key, and no call after it finds its record stale. -/
def Stores (calls : List (Call κ ν)) (k : κ) (r : Record ν) : Prop :=
  ∃ before since, calls = before ++ put r.timestamp r.interval k r.value :: since ∧
    ∀ c ∈ since, ¬c.Puts k ∧ c.timestamp ≤ r.timestamp + window r.interval

theorem lastTimestamp_append (calls : List (Call κ ν)) (c : Call κ ν) :
    lastTimestamp (calls ++ [c]) = c.timestamp := by
  simp [lastTimestamp]

theorem lastInterval_append (calls : List (Call κ ν)) (c : Call κ ν) :
    lastInterval (calls ++ [c]) = c.interval.getD (lastInterval calls) := by
  unfold lastInterval
  rw [List.filterMap_append]
  cases h : c.interval with
  | none => simp [h]
  | some i => simp [h]

/-- What is stored after one more call: the record it puts, or one that was stored
before and that it does not put again or find stale. -/
theorem stores_append {calls : List (Call κ ν)} {c : Call κ ν} {k : κ} {r : Record ν} :
    Stores (calls ++ [c]) k r ↔ c = put r.timestamp r.interval k r.value ∨
      Stores calls k r ∧ ¬c.Puts k ∧ c.timestamp ≤ r.timestamp + window r.interval := by
  constructor
  · intro ⟨before, since, hsplit, hsince⟩
    rcases List.eq_nil_or_concat since with rfl | ⟨since, last, rfl⟩
    · exact Or.inl (List.singleton_inj.mp (List.append_inj' hsplit rfl).2)
    · rw [List.concat_eq_append, ← List.cons_append, ← List.append_assoc] at hsplit
      obtain ⟨hcalls, hlast⟩ := List.append_inj' hsplit rfl
      rw [List.singleton_inj.mp hlast]
      refine Or.inr ⟨⟨before, since, hcalls, fun c' hc' => hsince c' (by simp [hc'])⟩, ?_⟩
      exact hsince last (by simp)
  · rintro (rfl | ⟨⟨before, since, rfl, hsince⟩, hc⟩)
    · exact ⟨calls, [], rfl, fun c hc => absurd hc List.not_mem_nil⟩
    · refine ⟨before, since ++ [c], by simp, fun c' hc' => ?_⟩
      rcases List.mem_append.mp hc' with hc' | hc'
      · exact hsince c' hc'
      · rwa [List.mem_singleton.mp hc']

theorem lastTimestamp_nonneg {calls : List (Call κ ν)} (h : ∀ c ∈ calls, c.Proper) :
    0 ≤ lastTimestamp calls := by
  unfold lastTimestamp
  cases hlast : calls.getLast? with
  | none => exact le_rfl
  | some c => exact (h c (List.mem_of_getLast? hlast)).timestamp_nonneg

theorem Proper.interval_nonneg {c : Call κ ν} (h : c.Proper) {i : ℚ} (hi : i ∈ c.interval) :
    0 ≤ i := by
  obtain ⟨n, rfl⟩ := h.interval_nat i hi
  exact n.cast_nonneg

theorem lastInterval_nonneg {calls : List (Call κ ν)} (h : ∀ c ∈ calls, c.Proper) :
    0 ≤ lastInterval calls := by
  unfold lastInterval
  cases hlast : (calls.filterMap interval).getLast? with
  | none => exact le_rfl
  | some i =>
      obtain ⟨c, hc, hi⟩ := List.mem_filterMap.mp (List.mem_of_getLast? hlast)
      exact (h c hc).interval_nonneg hi

/-! ### Making calls -/

variable [DecidableEq κ]

/-- What a call returns. The facade of `put` and `get_data` is the bucket itself. -/
inductive Returned (ν : Type)
  | facade
  | data (data : Option ν)
  deriving DecidableEq

/-- Make the call. -/
def perform : Call κ ν → EStateM PyError (TimeBucket κ ν) (Returned ν)
  | put timestamp interval key data => do
      TimeBucket.put timestamp interval key data
      return .facade
  | get currentTime key interval => return .data (← TimeBucket.get currentTime key interval)
  | getData currentTime interval => do
      TimeBucket.getData currentTime interval
      return .facade

/-- The call raises `ValueError`. -/
def Raises (c : Call κ ν) (b : TimeBucket κ ν) : Prop :=
  ∃ lastTimestamp given oldestToAccept b',
    c.perform b = .error (.valueError lastTimestamp given oldestToAccept) b'

/-- The bucket after the call, whether it raises or not. -/
def next (c : Call κ ν) (b : TimeBucket κ ν) : TimeBucket κ ν :=
  match c.perform b with
  | .ok _ b' => b'
  | .error _ b' => b'

/-- The bucket after a sequence of calls on a fresh one. -/
def after (calls : List (Call κ ν)) : TimeBucket κ ν := calls.foldl (fun b c => c.next b) {}

/-! ### One call -/

/-- The bucket after a call, in terms of its two accesses. -/
def effect : Call κ ν → TimeBucket κ ν → TimeBucket κ ν
  | put timestamp interval key data => TimeBucket.putState timestamp interval key data
  | get currentTime _ interval => TimeBucket.visit currentTime interval
  | getData currentTime interval => TimeBucket.visit currentTime interval

/-- What a call that returns finds in the bucket that it leaves. -/
def result : Call κ ν → TimeBucket κ ν → Returned ν
  | get _ key _, b => .data (b.getItem? key)
  | put _ _ _ _, _ => .facade
  | getData _ _, _ => .facade

/-- A call returns when the bucket accepts it and raises `ValueError` otherwise. -/
theorem perform_eq (c : Call κ ν) (b : TimeBucket κ ν) :
    c.perform b = if b.Accepts c.timestamp c.interval then .ok (c.result (c.effect b)) (c.effect b)
      else .error (b.refusal c.timestamp c.interval) (c.effect b) := by
  by_cases h : b.Accepts c.timestamp c.interval
  · rw [if_pos h]
    cases c with
    | put timestamp interval key data =>
        have hput := (TimeBucket.put_eq timestamp interval key data b).trans (if_pos h)
        simp only [perform, bind, EStateM.bind, hput]
        rfl
    | get currentTime key interval =>
        have hvisit := (TimeBucket.getBucket_eq currentTime interval b).trans (if_pos h)
        simp only [perform, TimeBucket.get, bind, EStateM.bind, hvisit]
        rfl
    | getData currentTime interval =>
        have hvisit := (TimeBucket.getBucket_eq currentTime interval b).trans (if_pos h)
        simp only [perform, TimeBucket.getData, bind, EStateM.bind, hvisit]
        rfl
  · rw [if_neg h]
    cases c with
    | put timestamp interval key data =>
        have hput := (TimeBucket.put_eq timestamp interval key data b).trans (if_neg h)
        simp only [perform, bind, EStateM.bind, hput]
        rfl
    | get currentTime key interval =>
        have hvisit := (TimeBucket.getBucket_eq currentTime interval b).trans (if_neg h)
        simp only [perform, TimeBucket.get, bind, EStateM.bind, hvisit]
        rfl
    | getData currentTime interval =>
        have hvisit := (TimeBucket.getBucket_eq currentTime interval b).trans (if_neg h)
        simp only [perform, TimeBucket.getData, bind, EStateM.bind, hvisit]
        rfl

theorem raises_iff {c : Call κ ν} {b : TimeBucket κ ν} :
    c.Raises b ↔ ¬b.Accepts c.timestamp c.interval := by
  unfold Raises
  rw [perform_eq]
  by_cases h : b.Accepts c.timestamp c.interval
  · simp [h]
  · simp [h, TimeBucket.refusal]

instance (c : Call κ ν) (b : TimeBucket κ ν) : Decidable (c.Raises b) :=
  decidable_of_iff _ raises_iff.symm

theorem next_eq (c : Call κ ν) (b : TimeBucket κ ν) : c.next b = c.effect b := by
  unfold next
  rw [perform_eq]
  by_cases h : b.Accepts c.timestamp c.interval
  · rw [if_pos h]
  · rw [if_neg h]

theorem lastInterval_next (c : Call κ ν) (b : TimeBucket κ ν) :
    (c.next b).lastInterval = c.interval.getD b.lastInterval := by
  rw [next_eq]
  cases c with
  | put => exact TimeBucket.putState_lastInterval ..
  | get => exact TimeBucket.visit_lastInterval ..
  | getData => exact TimeBucket.visit_lastInterval ..

theorem lastTimestamp_next (c : Call κ ν) (b : TimeBucket κ ν) :
    (c.next b).lastTimestamp = if c.Raises b then b.lastTimestamp else c.timestamp := by
  have h : (c.next b).lastTimestamp =
      if b.Accepts c.timestamp c.interval then c.timestamp else b.lastTimestamp := by
    rw [next_eq]
    cases c with
    | put => exact TimeBucket.putState_lastTimestamp ..
    | get => exact TimeBucket.visit_lastTimestamp ..
    | getData => exact TimeBucket.visit_lastTimestamp ..
  by_cases hraises : c.Raises b
  · rw [h, if_pos hraises, if_neg (raises_iff.mp hraises)]
  · rw [h, if_neg hraises, if_pos (not_not.mp (mt raises_iff.mpr hraises))]

/-- A call that raises leaves the records alone. -/
theorem get?_next_of_raises {c : Call κ ν} {b : TimeBucket κ ν} (h : c.Raises b) (k : κ) :
    (c.next b).bucket.get? k = b.bucket.get? k := by
  have hrefused := raises_iff.mp h
  rw [next_eq]
  cases c with
  | put => exact (TimeBucket.get?_putState ..).trans (if_neg hrefused)
  | get => exact (TimeBucket.get?_visit ..).trans (if_neg hrefused)
  | getData => exact (TimeBucket.get?_visit ..).trans (if_neg hrefused)

/-- A call that returns leaves the record it puts, and those it does not replace and
does not find stale. -/
theorem get?_next_iff {c : Call κ ν} {b : TimeBucket κ ν} (h : ¬c.Raises b) {k : κ}
    {r : Record ν} :
    (c.next b).bucket.get? k = some r ↔ c = put r.timestamp r.interval k r.value ∨
      b.bucket.get? k = some r ∧ ¬c.Puts k ∧ c.timestamp ≤ r.timestamp + window r.interval := by
  have haccepts := not_not.mp (mt raises_iff.mpr h)
  have hvisit : (b.visit c.timestamp c.interval).bucket.get? k = some r ↔
      b.bucket.get? k = some r ∧ c.timestamp ≤ r.timestamp + window r.interval := by
    rw [TimeBucket.get?_visit, if_pos haccepts, Option.filter_eq_some_iff, Record.fresh_iff,
      sub_le_iff_le_add]
  rw [next_eq]
  cases c with
  | put timestamp interval key data =>
      have hput := (TimeBucket.get?_putState timestamp interval key data b k).trans
        (if_pos haccepts)
      show (b.putState timestamp interval key data).bucket.get? k = some r ↔ _
      rw [hput]
      by_cases hk : k = key
      · subst hk
        obtain ⟨t, i, v⟩ := r
        simp [Puts]
      · rw [if_neg hk, Option.filter_eq_some_iff, Record.fresh_iff, sub_le_iff_le_add]
        simp [Puts, Ne.symm hk, Call.timestamp]
  | get => simpa [Puts, effect, Call.timestamp, Call.interval] using hvisit
  | getData => simpa [Puts, effect, Call.timestamp, Call.interval] using hvisit

/-! ### Sequences of calls -/

theorem after_append (calls : List (Call κ ν)) (c : Call κ ν) :
    after (calls ++ [c]) = c.next (after calls) := by
  simp [after]

/-- The calls of a sequence on a fresh bucket that return. -/
def returned (calls : List (Call κ ν)) : List (Call κ ν) :=
  Transition.kept (fun b c => c.next b) (fun b c => c.Raises b) {} calls

theorem returned_append (calls : List (Call κ ν)) (c : Call κ ν) :
    returned (calls ++ [c]) = returned calls ++ if c.Raises (after calls) then [] else [c] := by
  unfold returned
  rw [Transition.kept_append]
  rfl

/-- The bucket is what the calls so far have made of it. -/
structure Tracks (calls : List (Call κ ν)) (b : TimeBucket κ ν) : Prop where
  lastTimestamp : b.lastTimestamp = lastTimestamp (returned calls)
  lastInterval : b.lastInterval = lastInterval calls
  get?_iff : ∀ k r, b.bucket.get? k = some r ↔ Stores (returned calls) k r

theorem tracks_nil : Tracks ([] : List (Call κ ν)) {} := by
  refine ⟨rfl, rfl, fun k r => ⟨fun h => ?_, fun ⟨before, since, hsplit, _⟩ => ?_⟩⟩
  · rw [OrderedDict.get?_empty] at h
    cases h
  · exact absurd hsplit (by simp [returned, Transition.kept])

/-- One more call. -/
theorem tracks_next {calls : List (Call κ ν)} (h : Tracks calls (after calls)) (c : Call κ ν) :
    Tracks (calls ++ [c]) (c.next (after calls)) := by
  by_cases hraises : c.Raises (after calls)
  · have hreturned : returned (calls ++ [c]) = returned calls := by
      rw [returned_append, if_pos hraises, List.append_nil]
    refine ⟨?_, ?_, fun k r => ?_⟩
    · rw [lastTimestamp_next, if_pos hraises, hreturned, h.lastTimestamp]
    · rw [lastInterval_next, lastInterval_append, h.lastInterval]
    · rw [get?_next_of_raises hraises, hreturned, h.get?_iff]
  · have hreturned : returned (calls ++ [c]) = returned calls ++ [c] := by
      rw [returned_append, if_neg hraises]
    refine ⟨?_, ?_, fun k r => ?_⟩
    · rw [lastTimestamp_next, if_neg hraises, hreturned, lastTimestamp_append]
    · rw [lastInterval_next, lastInterval_append, h.lastInterval]
    · rw [get?_next_iff hraises, hreturned, stores_append, h.get?_iff]

theorem tracks_after (calls : List (Call κ ν)) : Tracks calls (after calls) := by
  induction calls using List.reverseRecOn with
  | nil => exact tracks_nil
  | append_singleton calls c ih =>
      rw [after_append]
      exact tracks_next ih c

/-! ### Proper calls -/

theorem getItem_eq_ok_iff {b : TimeBucket κ ν} {k : κ} {v : ν} :
    b.getItem k = .ok v ↔ ∃ timestamp interval, b.bucket.get? k = some ⟨timestamp, interval, v⟩ := by
  unfold TimeBucket.getItem
  cases h : b.bucket.get? k with
  | none => simp
  | some r => obtain ⟨t, i, v'⟩ := r; simp

theorem getItem?_eq_some_iff {b : TimeBucket κ ν} {k : κ} {v : ν} :
    b.getItem? k = some v ↔ b.getItem k = .ok v := by
  unfold TimeBucket.getItem? TimeBucket.getItem
  cases b.bucket.get? k with
  | none => simp
  | some r => simp

/-- **What a call does, by the history of the bucket.** It raises exactly when its
timestamp is behind the last call that returned by more than the window of the
interval passed last; after a call that returns, a key has the data of the last
put of it that returned, if no call since was too late for that put; and `get` returns
the data of its key, and `None` when it has none. -/
theorem call_after (calls : List (Call κ ν)) (c : Call κ ν)
    (hproper : ∀ c' ∈ calls ++ [c], c'.Proper) :
    (c.Raises (after calls) ↔ lastInterval (calls ++ [c]) ≠ 0 ∧
      ⌊c.timestamp⌋ < ⌊lastTimestamp (returned calls)⌋ - ⌊6 * lastInterval (calls ++ [c]) / 5⌋) ∧
    (¬c.Raises (after calls) → ∃ result b, c.perform (after calls) = .ok result b ∧
      (∀ k v, b.getItem k = .ok v ↔ ∃ timestamp interval before since,
        returned (calls ++ [c]) = before ++ put timestamp interval k v :: since ∧
        ∀ c' ∈ since, ¬c'.Puts k ∧ c'.timestamp ≤ timestamp + ⌊6 * interval / 5⌋) ∧
      ∀ currentTime k interval, c = get currentTime k interval →
        ∃ data, result = .data data ∧ ∀ v, data = some v ↔ b.getItem k = .ok v) := by
  have hcalls : ∀ c' ∈ returned calls, c'.Proper := fun c' hc' =>
    hproper c' (List.mem_append_left _ (Transition.mem_of_mem_kept hc'))
  have htracks := tracks_after calls
  constructor
  · have hinterval : c.interval.getD (after calls).lastInterval = lastInterval (calls ++ [c]) := by
      rw [lastInterval_append, htracks.lastInterval]
    rw [raises_iff, TimeBucket.accepts_iff, hinterval, htracks.lastTimestamp,
      window_eq_floor (lastInterval_nonneg hproper),
      pyInt_eq_floor (lastTimestamp_nonneg hcalls),
      pyInt_eq_floor (hproper c (by simp)).timestamp_nonneg, Classical.not_imp, not_le]
  · intro hreturns
    have haccepts := not_not.mp (mt raises_iff.mpr hreturns)
    refine ⟨c.result (c.next (after calls)), c.next (after calls),
      by rw [perform_eq, if_pos haccepts, next_eq], fun k v => ?_, ?_⟩
    · have hstored := (tracks_next htracks c).get?_iff k
      rw [getItem_eq_ok_iff]
      refine exists_congr fun timestamp => exists_congr fun interval => ?_
      rw [hstored]
      refine exists_congr fun before => exists_congr fun since => and_congr_right fun hsplit => ?_
      -- the put is one of the calls, so its interval is not negative
      have hput : put timestamp interval k v ∈ calls ++ [c] :=
        Transition.mem_of_mem_kept (hsplit ▸ List.mem_append_right _ List.mem_cons_self)
      rw [window_eq_floor ((hproper _ hput).interval_nonneg rfl)]
    · rintro currentTime k interval rfl
      exact ⟨_, rfl, fun v => getItem?_eq_some_iff⟩

/-- A read can be too early for the bucket and still fall within the window of a record:
the interval of the read counts, not the one of the put. Without an interval the same read
finds the record, and a later one no longer does. -/
theorem call_after_early :
    (get 24 "r1" (some 5)).Raises (after [put 20 100 "r1" 1, getData 31 none]) ∧
      (∃ b, (get 24 "r1" none).perform (after [put 20 100 "r1" 1, getData 31 none]) =
        .ok (.data (some 1)) b) ∧
      ∃ b, (get 141 "r1" none).perform (after [put 20 100 "r1" 1, getData 31 none]) =
        .ok (.data none) b := by
  have hproper : ∀ (currentTime : ℚ) (interval : Option ℚ), 0 ≤ currentTime →
      (∀ i ∈ interval, ∃ n : ℕ, i = n) →
      ∀ c ∈ [put 20 100 "r1" 1, getData 31 none] ++ [get currentTime "r1" interval], c.Proper := by
    intro currentTime interval htime hinterval c hc
    simp only [List.cons_append, List.nil_append, List.mem_cons, List.not_mem_nil, or_false] at hc
    rcases hc with rfl | rfl | rfl
    · exact ⟨by decide, by rintro _ ⟨⟩; exact ⟨100, by norm_num⟩⟩
    · exact ⟨by decide, by rintro _ ⟨⟩⟩
    · exact ⟨htime, hinterval⟩
  refine ⟨?_, ?_, ?_⟩
  · refine (call_after _ _ (hproper 24 (some 5) (by norm_num) ?_)).1.mpr (by decide +kernel)
    rintro _ ⟨⟩
    exact ⟨5, by norm_num⟩
  · obtain ⟨result, b, hperform, hpresent, hget⟩ :=
      (call_after _ (get 24 "r1" none) (hproper 24 none (by norm_num) nofun)).2 (by decide +kernel)
    obtain ⟨data, rfl, hdata⟩ := hget _ _ _ rfl
    have hsince : ∀ c ∈ ([getData 31 none, get 24 "r1" none] : List (Call String ℕ)),
        ¬c.Puts "r1" ∧ c.timestamp ≤ (20 : ℚ) + ⌊(6 * 100 / 5 : ℚ)⌋ := by
      norm_num [Puts, Call.timestamp]
    have hone : data = some 1 := (hdata 1).mpr ((hpresent "r1" 1).mpr
      ⟨20, 100, [], _, by decide +kernel, hsince⟩)
    exact ⟨b, hone ▸ hperform⟩
  · obtain ⟨result, b, hperform, hpresent, hget⟩ :=
      (call_after _ (get 141 "r1" none) (hproper 141 none (by norm_num) nofun)).2 (by decide +kernel)
    obtain ⟨data, rfl, hdata⟩ := hget _ _ _ rfl
    have hreturned : returned ([put 20 100 "r1" 1, getData 31 none] ++ [get 141 "r1" none]) =
        [put 20 100 "r1" 1, getData 31 none, get 141 "r1" none] := by
      decide +kernel
    have hnone : data = none := by
      refine Option.eq_none_iff_forall_ne_some.mpr fun v hv => ?_
      obtain ⟨timestamp, interval, before, since, hsplit, hsince⟩ :=
        (hpresent "r1" v).mp ((hdata v).mp hv)
      rw [hreturned] at hsplit
      rcases before with _ | ⟨first, before⟩
      · -- the one put of the key, which the read itself finds stale
        simp only [List.nil_append, List.cons.injEq, put.injEq] at hsplit
        obtain ⟨⟨rfl, rfl, -, -⟩, rfl⟩ := hsplit
        have hlate := (hsince (get 141 "r1" none) (by simp)).2
        norm_num [Call.timestamp] at hlate
      · have hmem : put timestamp interval "r1" v ∈
            [getData 31 none, get 141 "r1" none] := by
          rw [(List.cons.inj hsplit).2]
          exact List.mem_append_right _ List.mem_cons_self
        simp at hmem
    exact ⟨b, hnone ▸ hperform⟩

end Call

end SqlalchemyCollectd
