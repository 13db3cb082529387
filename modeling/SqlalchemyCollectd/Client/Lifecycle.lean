import SqlalchemyCollectd.Client.Collector
import SqlalchemyCollectd.Lib.Transition

/-!
# SqlalchemyCollectd.Client.Lifecycle

The sets of a collection target against the lifecycle of connections.

The abstract side is a pool in which every open connection has a state of its own:
checked out or not, detached or not, invalidated or not. It says which events can
happen next, and it is more permissive than any real pool: an invalidated
connection may go on in every way that others may, any connection that is not
detached may be closed, and `checkin` of `None` may happen at any time.

The concrete side is the target. `Tracks` relates the two; it is what every event
preserves (`tracks_handle`), and the numbers that the client reports are read off
it.
-/

namespace SqlalchemyCollectd

open Transition EngineCollector

/-! ### The pool -/

/-- The state of an open connection. -/
structure Conn where
  /-- Its last checkout or checkin event is a checkout. -/
  out : Bool := false
  detached : Bool := false
  invalidated : Bool := false
  deriving DecidableEq

/-- The open connections of all engines. -/
structure Pool where
  opened : Finset ℕ := ∅
  conn : ℕ → Conn := fun _ => {}

namespace Pool

/-- A change of the state of an open connection. -/
def modify (id : ℕ) (f : Conn → Conn) (p : Pool) : Pool :=
  { p with conn := Function.update p.conn id (f (p.conn id)) }

/-- A connection is gone. -/
def remove (id : ℕ) (p : Pool) : Pool := { p with opened := p.opened.erase id }

/-- The events that can happen, and the pool after them. -/
def step (noneId : ℕ) (p : Pool) : PoolEvent → Option Pool
  | .connect id =>
      if id ∉ p.opened ∧ id ≠ noneId then
        some { opened := insert id p.opened, conn := Function.update p.conn id {} }
      else none
  | .checkout id =>
      if id ∈ p.opened ∧ !(p.conn id).out then some (p.modify id ({ · with out := true }))
      else none
  | .checkin (some id) =>
      if id ∈ p.opened ∧ (p.conn id).out ∧ !(p.conn id).detached then
        some (p.modify id ({ · with out := false }))
      else none
  | .checkin none => some p
  | .invalidate id | .softInvalidate id =>
      if id ∈ p.opened then some (p.modify id ({ · with invalidated := true })) else none
  | .reset id => if id ∈ p.opened then some p else none
  | .close id =>
      if id ∈ p.opened ∧ !(p.conn id).detached then some (p.remove id) else none
  | .detach id =>
      if id ∈ p.opened ∧ (p.conn id).out then some (p.modify id ({ · with detached := true }))
      else none
  | .closeDetached id =>
      if id ∈ p.opened ∧ (p.conn id).detached then some (p.remove id) else none

end Pool

/-- A pool and the target that watches it, with everything the handlers complained
about. -/
structure Watched where
  pool : Pool := {}
  target : CollectionTarget := {}
  complaints : List Complaint := []

/-- An event of the pool, handled. -/
def Watched.step (noneId : ℕ) (w : Watched) (event : PoolEvent) : Option Watched :=
  (w.pool.step noneId event).map fun pool =>
    { pool
      target := (handle noneId w.target event).1
      complaints := w.complaints ++ (handle noneId w.target event).2 }

/-! ### The invariant -/

/-- The target tracks the pool: its sets hold the open connections in the respective
state, and `checkedin` possibly `id(None)` as well. -/
structure Tracks (noneId : ℕ) (p : Pool) (c : CollectionTarget) : Prop where
  none_closed : noneId ∉ p.opened
  /-- Only a connection that is checked out can be detached. -/
  detached_out : ∀ id ∈ p.opened, (p.conn id).detached → (p.conn id).out
  connections : ∀ id, id ∈ c.connections ↔ id ∈ p.opened
  checkedin : ∀ id, id ≠ noneId → (id ∈ c.checkedin ↔ id ∈ p.opened ∧ ¬(p.conn id).out)
  invalidated : ∀ id, id ∈ c.invalidated ↔ id ∈ p.opened ∧ (p.conn id).invalidated
  detached : ∀ id, id ∈ c.detached ↔ id ∈ p.opened ∧ (p.conn id).detached
  connects : c.totalConnects = c.totalDisconnects + p.opened.card

/-- Two targets hold the same identifiers, but for one. -/
structure SameBut (id : ℕ) (c c' : CollectionTarget) : Prop where
  connections : ∀ x, x ≠ id → (x ∈ c'.connections ↔ x ∈ c.connections)
  checkedin : ∀ x, x ≠ id → (x ∈ c'.checkedin ↔ x ∈ c.checkedin)
  invalidated : ∀ x, x ≠ id → (x ∈ c'.invalidated ↔ x ∈ c.invalidated)
  detached : ∀ x, x ≠ id → (x ∈ c'.detached ↔ x ∈ c.detached)

/-- The sets of a target say of an identifier what the state of its connection says. -/
structure Shows (conn : Conn) (id : ℕ) (c : CollectionTarget) : Prop where
  connections : id ∈ c.connections
  checkedin : id ∈ c.checkedin ↔ ¬conn.out
  invalidated : id ∈ c.invalidated ↔ conn.invalidated
  detached : id ∈ c.detached ↔ conn.detached

/-- No set of a target has the identifier. -/
structure Forgotten (id : ℕ) (c : CollectionTarget) : Prop where
  connections : id ∉ c.connections
  checkedin : id ∉ c.checkedin
  invalidated : id ∉ c.invalidated
  detached : id ∉ c.detached

namespace Tracks

variable {noneId id : ℕ} {p : Pool} {c c' : CollectionTarget}

theorem ne_none (h : Tracks noneId p c) (hid : id ∈ p.opened) : id ≠ noneId :=
  fun heq => h.none_closed (heq ▸ hid)

theorem shows (h : Tracks noneId p c) (hid : id ∈ p.opened) : Shows (p.conn id) id c where
  connections := (h.connections id).mpr hid
  checkedin := (h.checkedin id (h.ne_none hid)).trans (and_iff_right hid)
  invalidated := (h.invalidated id).trans (and_iff_right hid)
  detached := (h.detached id).trans (and_iff_right hid)

/-- An event that shows the new state of an open connection, and touches no other. -/
theorem modify (h : Tracks noneId p c) (hid : id ∈ p.opened) {f : Conn → Conn}
    (hdetached : (f (p.conn id)).detached → (f (p.conn id)).out) (hsame : SameBut id c c')
    (hshows : Shows (f (p.conn id)) id c') (hconnects : c'.totalConnects = c.totalConnects)
    (hdisconnects : c'.totalDisconnects = c.totalDisconnects) :
    Tracks noneId (p.modify id f) c' where
  none_closed := h.none_closed
  detached_out x hx := by
    by_cases hxid : x = id
    · simpa [Pool.modify, hxid] using hdetached
    · simpa [Pool.modify, hxid] using h.detached_out x hx
  connections x := by
    by_cases hxid : x = id
    · simp [Pool.modify, hxid, hshows.connections, hid]
    · exact (hsame.connections x hxid).trans (h.connections x)
  checkedin x hx := by
    by_cases hxid : x = id
    · simp [Pool.modify, hxid, hshows.checkedin, hid]
    · simp [Pool.modify, hxid, hsame.checkedin x hxid, h.checkedin x hx]
  invalidated x := by
    by_cases hxid : x = id
    · simp [Pool.modify, hxid, hshows.invalidated, hid]
    · simp [Pool.modify, hxid, hsame.invalidated x hxid, h.invalidated x]
  detached x := by
    by_cases hxid : x = id
    · simp [Pool.modify, hxid, hshows.detached, hid]
    · simp [Pool.modify, hxid, hsame.detached x hxid, h.detached x]
  connects := by rw [hconnects, hdisconnects, h.connects]; rfl

/-- An event that makes the target forget an open connection. -/
theorem remove (h : Tracks noneId p c) (hid : id ∈ p.opened) (hsame : SameBut id c c')
    (hforgotten : Forgotten id c') (hconnects : c'.totalConnects = c.totalConnects)
    (hdisconnects : c'.totalDisconnects = c.totalDisconnects + 1) :
    Tracks noneId (p.remove id) c' where
  none_closed hx := h.none_closed (Finset.mem_of_mem_erase hx)
  detached_out x hx := h.detached_out x (Finset.mem_of_mem_erase hx)
  connections x := by
    by_cases hxid : x = id
    · simp [Pool.remove, hxid, hforgotten.connections]
    · simp [Pool.remove, hxid, hsame.connections x hxid, h.connections x]
  checkedin x hx := by
    by_cases hxid : x = id
    · simp [Pool.remove, hxid, hforgotten.checkedin]
    · simp [Pool.remove, hxid, hsame.checkedin x hxid, h.checkedin x hx]
  invalidated x := by
    by_cases hxid : x = id
    · simp [Pool.remove, hxid, hforgotten.invalidated]
    · simp [Pool.remove, hxid, hsame.invalidated x hxid, h.invalidated x]
  detached x := by
    by_cases hxid : x = id
    · simp [Pool.remove, hxid, hforgotten.detached]
    · simp [Pool.remove, hxid, hsame.detached x hxid, h.detached x]
  connects := by
    have hcard : (p.opened.erase id).card + 1 = p.opened.card := Finset.card_erase_add_one hid
    rw [hconnects, hdisconnects, h.connects, ← hcard]
    exact (Nat.succ_add ..).symm

/-- A new connection. -/
theorem connect (h : Tracks noneId p c) (hid : id ∉ p.opened) (hnone : id ≠ noneId) :
    Tracks noneId { opened := insert id p.opened, conn := Function.update p.conn id {} }
      (connectEvt id c) where
  none_closed := by simp [h.none_closed, Ne.symm hnone]
  detached_out x hx := by
    by_cases hxid : x = id
    · simp [hxid]
    · simpa [hxid] using h.detached_out x (by simpa [hxid] using hx)
  connections x := by simp [connectEvt, h.connections]
  checkedin x hx := by
    by_cases hxid : x = id
    · simp [connectEvt, hxid]
    · simp [connectEvt, hxid, h.checkedin x hx]
  invalidated x := by
    by_cases hxid : x = id
    · simp [connectEvt, hxid, h.invalidated, hid]
    · simp [connectEvt, hxid, h.invalidated]
  detached x := by
    by_cases hxid : x = id
    · simp [connectEvt, hxid, h.detached, hid]
    · simp [connectEvt, hxid, h.detached]
  connects := by
    simp [connectEvt, Finset.card_insert_of_notMem hid, h.connects, Nat.add_assoc]

/-- `checkin` of `None` only adds `id(None)`. -/
theorem checkin_none (h : Tracks noneId p c) : Tracks noneId p (checkinEvt noneId c) :=
  { h with checkedin := fun x hx => by simp [checkinEvt, hx, h.checkedin x hx] }

theorem checkout (h : Tracks noneId p c) (hid : id ∈ p.opened) (hout : ¬(p.conn id).out) :
    Tracks noneId (p.modify id ({ · with out := true })) (checkoutEvt id c).1 ∧
      (checkoutEvt id c).2 = [] := by
  have hshows := h.shows hid
  have hmem : id ∈ c.checkedin := hshows.checkedin.mpr hout
  simp only [checkoutEvt, if_pos hmem, and_true]
  refine h.modify hid (fun _ => rfl) ?_ ?_ rfl rfl
  · constructor <;> intro x hx <;> simp [hx]
  · exact ⟨hshows.connections, by simp, hshows.invalidated, hshows.detached⟩

theorem checkin (h : Tracks noneId p c) (hid : id ∈ p.opened) (hdetached : ¬(p.conn id).detached) :
    Tracks noneId (p.modify id ({ · with out := false })) (checkinEvt id c) := by
  have hshows := h.shows hid
  refine h.modify hid (fun hd => absurd hd hdetached) ?_ ?_ rfl rfl
  · constructor <;> intro x hx <;> simp [checkinEvt, hx]
  · exact ⟨hshows.connections, by simp [checkinEvt], hshows.invalidated, hshows.detached⟩

theorem invalidate (h : Tracks noneId p c) (hid : id ∈ p.opened) :
    Tracks noneId (p.modify id ({ · with invalidated := true })) (invalidateEvt id c) := by
  have hshows := h.shows hid
  refine h.modify hid (h.detached_out id hid) ?_ ?_ rfl rfl
  · constructor <;> intro x hx <;> simp [invalidateEvt, hx]
  · exact ⟨hshows.connections, hshows.checkedin, by simp [invalidateEvt], hshows.detached⟩

theorem detach (h : Tracks noneId p c) (hid : id ∈ p.opened) (hout : (p.conn id).out) :
    Tracks noneId (p.modify id ({ · with detached := true })) (detachEvt id c) := by
  have hshows := h.shows hid
  refine h.modify hid (fun _ => hout) ?_ ?_ rfl rfl
  · constructor <;> intro x hx <;> simp [detachEvt, hx]
  · exact ⟨hshows.connections, hshows.checkedin, hshows.invalidated, by simp [detachEvt]⟩

theorem reset (h : Tracks noneId p c) : Tracks noneId p (resetEvt id c) := { h with }

theorem close (h : Tracks noneId p c) (hid : id ∈ p.opened) (hdetached : ¬(p.conn id).detached) :
    Tracks noneId (p.remove id) (closeEvt id c).1 ∧ (closeEvt id c).2 = [] := by
  have hshows := h.shows hid
  have hnot : id ∉ c.detached := fun hmem => hdetached (hshows.detached.mp hmem)
  simp only [closeEvt, removeConnection, if_pos hshows.connections, if_neg hnot, List.append_nil,
    and_true]
  refine h.remove hid ?_ ?_ rfl rfl
  · constructor <;> intro x hx <;> simp [hx]
  · constructor <;> simp

theorem closeDetached (h : Tracks noneId p c) (hid : id ∈ p.opened) :
    Tracks noneId (p.remove id) (closeDetachedEvt id c).1 ∧ (closeDetachedEvt id c).2 = [] := by
  have hshows := h.shows hid
  simp only [closeDetachedEvt, removeConnection, if_pos hshows.connections, and_true]
  refine h.remove hid ?_ ?_ rfl rfl
  · constructor <;> intro x hx <;> simp [hx]
  · constructor <;> simp

/-- **Every event is tracked**, and no handler complains. -/
theorem handle {event : PoolEvent} {p' : Pool} (h : Tracks noneId p c)
    (hstep : p.step noneId event = some p') :
    Tracks noneId p' (EngineCollector.handle noneId c event).1 ∧
      (EngineCollector.handle noneId c event).2 = [] := by
  cases event with
  | connect id =>
      obtain ⟨⟨hid, hnone⟩, ⟨⟩⟩ := Option.ite_none_right_eq_some.mp hstep
      exact ⟨h.connect hid hnone, rfl⟩
  | checkout id =>
      obtain ⟨⟨hid, hout⟩, ⟨⟩⟩ := Option.ite_none_right_eq_some.mp hstep
      exact h.checkout hid (by simpa using hout)
  | checkin id =>
      cases id with
      | none =>
          obtain rfl := Option.some.inj hstep
          exact ⟨h.checkin_none, rfl⟩
      | some id =>
          obtain ⟨⟨hid, -, hdetached⟩, ⟨⟩⟩ := Option.ite_none_right_eq_some.mp hstep
          exact ⟨h.checkin hid (by simpa using hdetached), rfl⟩
  | invalidate id =>
      obtain ⟨hid, ⟨⟩⟩ := Option.ite_none_right_eq_some.mp hstep
      exact ⟨h.invalidate hid, rfl⟩
  | softInvalidate id =>
      obtain ⟨hid, ⟨⟩⟩ := Option.ite_none_right_eq_some.mp hstep
      exact ⟨h.invalidate hid, rfl⟩
  | reset id =>
      obtain ⟨-, ⟨⟩⟩ := Option.ite_none_right_eq_some.mp hstep
      exact ⟨h.reset, rfl⟩
  | close id =>
      obtain ⟨⟨hid, hdetached⟩, ⟨⟩⟩ := Option.ite_none_right_eq_some.mp hstep
      exact h.close hid (by simpa using hdetached)
  | detach id =>
      obtain ⟨⟨hid, hout⟩, ⟨⟩⟩ := Option.ite_none_right_eq_some.mp hstep
      exact ⟨h.detach hid hout, rfl⟩
  | closeDetached id =>
      obtain ⟨⟨hid, -⟩, ⟨⟩⟩ := Option.ite_none_right_eq_some.mp hstep
      exact h.closeDetached hid

theorem start (noneId : ℕ) : Tracks noneId {} {} := by
  constructor <;> simp

end Tracks

/-! ### Whole runs -/

/-- Every event that the pool allows. -/
abbrev Watched.Reaches (noneId : ℕ) (events : List PoolEvent) (w : Watched) : Prop :=
  Run (Watched.step noneId) (fun _ _ => True) {} events w

theorem Watched.step_eq {noneId : ℕ} {w w' : Watched} {event : PoolEvent}
    (h : w.step noneId event = some w') :
    w.pool.step noneId event = some w'.pool ∧
      w'.target = (handle noneId w.target event).1 ∧
      w'.complaints = w.complaints ++ (handle noneId w.target event).2 := by
  obtain ⟨pool, hpool, rfl⟩ := Option.map_eq_some_iff.mp h
  exact ⟨hpool, rfl, rfl⟩

/-- In every reachable state the target tracks the pool, and nothing was complained about. -/
theorem tracks_run {noneId : ℕ} {events : List PoolEvent} {w : Watched}
    (h : Watched.Reaches noneId events w) :
    Tracks noneId w.pool w.target ∧ w.complaints = [] := by
  refine h.invariant (P := fun _ w => Tracks noneId w.pool w.target ∧ w.complaints = [])
    ⟨Tracks.start noneId, rfl⟩ fun ih _ hstep => ?_
  obtain ⟨hpool, htarget, hcomplaints⟩ := Watched.step_eq hstep
  obtain ⟨htracks, hsilent⟩ := ih.1.handle hpool
  rw [htarget, hcomplaints, ih.2, hsilent]
  exact ⟨htracks, rfl⟩

namespace Tracks

variable {noneId : ℕ} {p : Pool} {c : CollectionTarget}

theorem numConnections_eq (h : Tracks noneId p c) : c.numConnections = p.opened.card :=
  congrArg Finset.card (Finset.ext h.connections)

theorem numDetached_eq (h : Tracks noneId p c) :
    c.numDetached = (p.opened.filter fun id => (p.conn id).detached).card :=
  congrArg Finset.card (Finset.ext fun id => by rw [h.detached, Finset.mem_filter])

theorem numCheckedout_eq (h : Tracks noneId p c) :
    c.numCheckedout = (p.opened.filter fun id =>
      (p.conn id).out ∧ ¬(p.conn id).detached ∧ ¬(p.conn id).invalidated).card := by
  refine congrArg Finset.card (Finset.ext fun id => ?_)
  rw [Finset.mem_filter]
  simp only [Finset.mem_sdiff, h.connections]
  constructor
  · intro ⟨⟨⟨hid, hdetached⟩, hinvalidated⟩, hcheckedin⟩
    have hshows := h.shows hid
    rw [hshows.detached] at hdetached
    rw [hshows.invalidated] at hinvalidated
    rw [hshows.checkedin, not_not] at hcheckedin
    exact ⟨hid, hcheckedin, hdetached, hinvalidated⟩
  · intro ⟨hid, hout, hdetached, hinvalidated⟩
    have hshows := h.shows hid
    rw [← hshows.detached] at hdetached
    rw [← hshows.invalidated] at hinvalidated
    exact ⟨⟨⟨hid, hdetached⟩, hinvalidated⟩, fun hmem => hshows.checkedin.mp hmem hout⟩

end Tracks

/-- **The counters refine the lifecycle.** Whatever the pools of all engines emit, no
handler complains, and the reported numbers are those of the open connections. -/
theorem counters_refine_lifecycle {noneId : ℕ} {events : List PoolEvent} {w : Watched}
    (h : Watched.Reaches noneId events w) :
    w.complaints = [] ∧
      w.target.numConnections = w.pool.opened.card ∧
      (w.target.totalConnects : ℤ) - w.target.totalDisconnects = w.pool.opened.card ∧
      w.target.numCheckedout = (w.pool.opened.filter fun id =>
        (w.pool.conn id).out ∧ ¬(w.pool.conn id).detached ∧
          ¬(w.pool.conn id).invalidated).card ∧
      w.target.numDetached = (w.pool.opened.filter fun id => (w.pool.conn id).detached).card := by
  obtain ⟨htracks, hsilent⟩ := tracks_run h
  refine ⟨hsilent, htracks.numConnections_eq, ?_, htracks.numCheckedout_eq,
    htracks.numDetached_eq⟩
  rw [htracks.connects]
  push_cast
  exact add_sub_cancel_left ..

theorem counters_refine_lifecycle_reusedId :
    ∃ w, Watched.Reaches 0 [.connect 1, .connect 2, .checkout 1, .checkout 2, .invalidate 1, .close 1,
        .checkin none, .connect 1, .detach 2] w ∧
      w.complaints = [] ∧
      w.target.numConnections = w.pool.opened.card ∧
      (w.target.totalConnects : ℤ) - w.target.totalDisconnects = w.pool.opened.card ∧
      w.target.numCheckedout = (w.pool.opened.filter fun id =>
        (w.pool.conn id).out ∧ ¬(w.pool.conn id).detached ∧
          ¬(w.pool.conn id).invalidated).card ∧
      w.target.numDetached =
        (w.pool.opened.filter fun id => (w.pool.conn id).detached).card := by
  have hrun : ([.connect 1, .connect 2, .checkout 1, .checkout 2, .invalidate 1, .close 1,
      .checkin none, .connect 1, .detach 2].foldlM
        (guarded (Watched.step 0) fun _ _ => True) {}).isSome := by
    decide
  obtain ⟨w, hw⟩ := Option.isSome_iff_exists.mp hrun
  exact ⟨w, Run.of_exec hw, counters_refine_lifecycle (Run.of_exec hw)⟩

/-! ### Checked-in connections -/

/-- Only a `checkin` of `None` changes whether `id(None)` is in `checkedin`. -/
theorem Tracks.none_mem_handle {noneId : ℕ} {p p' : Pool} {c : CollectionTarget}
    {event : PoolEvent} (h : Tracks noneId p c) (hstep : p.step noneId event = some p') :
    noneId ∈ (EngineCollector.handle noneId c event).1.checkedin ↔
      noneId ∈ c.checkedin ∨ event = .checkin none := by
  cases event with
  | connect id =>
      obtain ⟨⟨-, hnone⟩, -⟩ := Option.ite_none_right_eq_some.mp hstep
      simp [EngineCollector.handle, connectEvt, Ne.symm hnone]
  | checkout id =>
      obtain ⟨⟨hid, -⟩, -⟩ := Option.ite_none_right_eq_some.mp hstep
      have hne := Ne.symm (h.ne_none hid)
      simp only [EngineCollector.handle, checkoutEvt]
      split <;> simp [hne]
  | checkin id =>
      cases id with
      | none => simp [EngineCollector.handle, checkinEvt]
      | some id =>
          obtain ⟨⟨hid, -⟩, -⟩ := Option.ite_none_right_eq_some.mp hstep
          simp [EngineCollector.handle, checkinEvt, Ne.symm (h.ne_none hid)]
  | invalidate id => simp [EngineCollector.handle, invalidateEvt]
  | softInvalidate id => simp [EngineCollector.handle, invalidateEvt]
  | reset id => simp [EngineCollector.handle, resetEvt]
  | close id =>
      obtain ⟨⟨hid, -⟩, -⟩ := Option.ite_none_right_eq_some.mp hstep
      have hne := Ne.symm (h.ne_none hid)
      simp only [EngineCollector.handle, closeEvt, removeConnection]
      split <;> simp [hne]
  | detach id => simp [EngineCollector.handle, detachEvt]
  | closeDetached id =>
      obtain ⟨⟨hid, -⟩, -⟩ := Option.ite_none_right_eq_some.mp hstep
      have hne := Ne.symm (h.ne_none hid)
      simp only [EngineCollector.handle, closeDetachedEvt, removeConnection]
      split <;> simp [hne]

/-- `id(None)` is in `checkedin` from the first `checkin` of `None` on. -/
theorem none_mem_checkedin_iff {noneId : ℕ} {events : List PoolEvent} {w : Watched}
    (h : Watched.Reaches noneId events w) :
    noneId ∈ w.target.checkedin ↔ .checkin none ∈ events := by
  have hinvariant : Tracks noneId w.pool w.target ∧
      (noneId ∈ w.target.checkedin ↔ .checkin none ∈ events) := by
    refine h.invariant (P := fun events w => Tracks noneId w.pool w.target ∧
      (noneId ∈ w.target.checkedin ↔ .checkin none ∈ events)) ⟨Tracks.start noneId, by simp⟩ ?_
    intro events w event w' ih _ hstep
    obtain ⟨hpool, htarget, -⟩ := Watched.step_eq hstep
    rw [htarget]
    refine ⟨(ih.1.handle hpool).1, ?_⟩
    rw [ih.1.none_mem_handle hpool, ih.2, List.mem_append, List.mem_singleton, eq_comm]
  exact hinvariant.2

theorem Tracks.checkedin_subset_iff {noneId : ℕ} {p : Pool} {c : CollectionTarget}
    (h : Tracks noneId p c) : c.checkedin ⊆ c.connections ↔ noneId ∉ c.checkedin := by
  constructor
  · intro hsubset hmem
    exact h.none_closed ((h.connections noneId).mp (hsubset hmem))
  · intro hnone id hid
    exact (h.connections id).mpr ((h.checkedin id fun heq => hnone (heq ▸ hid)).mp hid).1

/-- Checked-in, checked-out and detached connections are different connections. -/
theorem Tracks.sum_le {noneId : ℕ} {p : Pool} {c : CollectionTarget} (h : Tracks noneId p c)
    (hsubset : c.checkedin ⊆ c.connections) :
    c.numCheckedin + c.numCheckedout + c.numDetached ≤ c.numConnections := by
  have hout : Disjoint c.checkedin (((c.connections \ c.detached) \ c.invalidated) \ c.checkedin) :=
    Finset.disjoint_sdiff
  have hdetached : Disjoint
      (c.checkedin ∪ ((c.connections \ c.detached) \ c.invalidated) \ c.checkedin) c.detached := by
    rw [Finset.disjoint_left]
    intro id hid hmem
    obtain ⟨hopened, hdet⟩ := (h.detached id).mp hmem
    rcases Finset.mem_union.mp hid with hin | hin
    · exact (h.shows hopened).checkedin.mp hin (h.detached_out id hopened hdet)
    · simp [hmem] at hin
  unfold CollectionTarget.numCheckedin CollectionTarget.numCheckedout CollectionTarget.numDetached
  rw [← Finset.card_union_of_disjoint hout, ← Finset.card_union_of_disjoint hdetached]
  refine Finset.card_le_card fun id hid => ?_
  rcases Finset.mem_union.mp hid with hid | hid
  · rcases Finset.mem_union.mp hid with hid | hid
    · exact hsubset hid
    · exact (Finset.mem_sdiff.mp (Finset.mem_sdiff.mp (Finset.mem_sdiff.mp hid).1).1).1
  · exact (h.connections id).mpr ((h.detached id).mp hid).1

/-- **Checked-in connections are real connections exactly until the first `checkin` of
`None`**, the one that follows a hard invalidation. -/
theorem checkedin_real_iff {noneId : ℕ} {events : List PoolEvent} {w : Watched}
    (h : Watched.Reaches noneId events w) :
    (w.target.checkedin ⊆ w.target.connections ∧
      w.target.numCheckedin + w.target.numCheckedout + w.target.numDetached ≤
        w.target.numConnections) ↔
      .checkin none ∉ events := by
  obtain ⟨htracks, -⟩ := tracks_run h
  rw [← none_mem_checkedin_iff h, ← htracks.checkedin_subset_iff]
  exact ⟨And.left, fun hsubset => ⟨hsubset, htracks.sum_le hsubset⟩⟩

theorem checkedin_real_iff_checkin :
    ∃ w, Watched.Reaches 0 [.connect 1, .checkout 1, .checkin (some 1)] w ∧
      ((w.target.checkedin ⊆ w.target.connections ∧
        w.target.numCheckedin + w.target.numCheckedout + w.target.numDetached ≤
          w.target.numConnections) ↔
        .checkin none ∉ [PoolEvent.connect 1, .checkout 1, .checkin (some 1)]) := by
  have hrun : ([.connect 1, .checkout 1, .checkin (some 1)].foldlM
      (guarded (Watched.step 0) fun _ _ => True) {}).isSome := by
    decide
  obtain ⟨w, hw⟩ := Option.isSome_iff_exists.mp hrun
  exact ⟨w, Run.of_exec hw, checkedin_real_iff (Run.of_exec hw)⟩

/-- **After a hard invalidation `checkedin` holds `id(None)`**, here with no connection
open at all. -/
theorem checkedin_unreal :
    ∃ w, Watched.Reaches 0 [.connect 1, .checkout 1, .invalidate 1, .close 1, .checkin none] w ∧
      ¬w.target.checkedin ⊆ w.target.connections ∧
      w.target.numConnections < w.target.numCheckedin := by
  have hrun : ([.connect 1, .checkout 1, .invalidate 1, .close 1, .checkin none].foldlM
      (guarded (Watched.step 0) fun _ _ => True) {}).map
        (fun w => (w.target.checkedin, w.target.connections)) = some ({0}, ∅) := by
    decide
  obtain ⟨w, hw, hsets⟩ := Option.map_eq_some_iff.mp hrun
  obtain ⟨hcheckedin, hconnections⟩ := Prod.mk.inj hsets
  refine ⟨w, Run.of_exec hw, ?_, ?_⟩
  · rw [hcheckedin, hconnections]
    decide
  · rw [CollectionTarget.numConnections, CollectionTarget.numCheckedin, hcheckedin, hconnections]
    decide

end SqlalchemyCollectd
