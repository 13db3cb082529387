import Mathlib.Data.Finset.Filter
import Mathlib.Data.Finset.Insert
import SqlalchemyCollectd.Python

/-!
# SqlalchemyCollectd.Client.Collector

`CollectionTarget` and the event handlers of `EngineCollector`.

The collectors of all engines that share a target share its sets and counters, so
a handler is a function on the target alone. A handler can complain in two ways:
it may issue a warning, and `_checkout_evt` may raise `KeyError` after it has
already counted the checkout.
-/

namespace SqlalchemyCollectd

/-- `CollectionTarget`: connection identifiers are natural numbers. -/
structure CollectionTarget where
  /-- The engine of each of the collectors, in the order in which they were added. -/
  collectors : List ℕ := []
  connections : Finset ℕ := ∅
  checkedin : Finset ℕ := ∅
  invalidated : Finset ℕ := ∅
  detached : Finset ℕ := ∅
  transactions : Finset ℕ := ∅
  totalCheckouts : ℕ := 0
  totalInvalidated : ℕ := 0
  totalConnects : ℕ := 0
  totalDisconnects : ℕ := 0

namespace CollectionTarget

def numPools (c : CollectionTarget) : ℕ := c.collectors.length

def numCheckedout (c : CollectionTarget) : ℕ :=
  (((c.connections \ c.detached) \ c.invalidated) \ c.checkedin).card

def numCheckedin (c : CollectionTarget) : ℕ := c.checkedin.card

def numDetached (c : CollectionTarget) : ℕ := c.detached.card

def numInvalidated (c : CollectionTarget) : ℕ := c.invalidated.card

def numConnections (c : CollectionTarget) : ℕ := c.connections.card

def numTransactions (c : CollectionTarget) : ℕ := c.transactions.card

end CollectionTarget

/-- What a handler complains about. -/
inductive Complaint
  /-- `KeyError` from `self.checkedin.remove` in `_checkout_evt`. -/
  | keyError (id : ℕ)
  /-- "connection … was closed but not part of total connections". -/
  | missingConnection (id : ℕ)
  /-- "shouldn't have detached". -/
  | detached (id : ℕ)
  deriving DecidableEq

namespace EngineCollector

/-- `_connect_evt`, but for the check of the worker thread. -/
def connectEvt (id : ℕ) (c : CollectionTarget) : CollectionTarget :=
  { c with
    totalConnects := c.totalConnects + 1
    connections := insert id c.connections
    checkedin := insert id c.checkedin }

/-- `_checkout_evt`. -/
def checkoutEvt (id : ℕ) (c : CollectionTarget) : CollectionTarget × List Complaint :=
  let c := { c with totalCheckouts := c.totalCheckouts + 1 }
  if id ∈ c.checkedin then ({ c with checkedin := c.checkedin.erase id }, [])
  else (c, [.keyError id])

/-- `_checkin_evt`. -/
def checkinEvt (id : ℕ) (c : CollectionTarget) : CollectionTarget :=
  { c with checkedin := insert id c.checkedin }

/-- `_invalidate_evt`, the listener of both `invalidate` and `soft_invalidate`. -/
def invalidateEvt (id : ℕ) (c : CollectionTarget) : CollectionTarget :=
  { c with
    totalInvalidated := c.totalInvalidated + 1
    invalidated := insert id c.invalidated }

/-- `_reset_evt`. -/
def resetEvt (id : ℕ) (c : CollectionTarget) : CollectionTarget :=
  { c with transactions := c.transactions.erase id }

/-- `self.connections.remove(id_)` and the disconnect counter, or the warning. -/
def removeConnection (id : ℕ) (c : CollectionTarget) : CollectionTarget × List Complaint :=
  if id ∈ c.connections then
    ({ c with
        connections := c.connections.erase id
        totalDisconnects := c.totalDisconnects + 1 }, [])
  else (c, [.missingConnection id])

/-- `_close_evt`. -/
def closeEvt (id : ℕ) (c : CollectionTarget) : CollectionTarget × List Complaint :=
  let c := { c with
    transactions := c.transactions.erase id
    invalidated := c.invalidated.erase id
    checkedin := c.checkedin.erase id }
  let (c, complaints) := removeConnection id c
  ({ c with detached := c.detached.erase id },
    complaints ++ if id ∈ c.detached then [.detached id] else [])

/-- `_detach_evt`. -/
def detachEvt (id : ℕ) (c : CollectionTarget) : CollectionTarget :=
  { c with detached := insert id c.detached }

/-- `_close_detached_evt`. -/
def closeDetachedEvt (id : ℕ) (c : CollectionTarget) : CollectionTarget × List Complaint :=
  removeConnection id
    { c with
      transactions := c.transactions.erase id
      invalidated := c.invalidated.erase id
      checkedin := c.checkedin.erase id
      detached := c.detached.erase id }

end EngineCollector

/-! ### Events -/

/-- The events of the pools of all engines of a target, with the identifiers of the
DBAPI connections. The connection of a `checkin` is `None` after a hard
invalidation. -/
inductive PoolEvent
  | connect (id : ℕ)
  | checkout (id : ℕ)
  | checkin (id : Option ℕ)
  | invalidate (id : ℕ)
  | softInvalidate (id : ℕ)
  | reset (id : ℕ)
  | close (id : ℕ)
  | detach (id : ℕ)
  | closeDetached (id : ℕ)
  deriving DecidableEq

open EngineCollector

/-- The listeners that `EngineCollector.__init__` registers; `noneId` is `id(None)`. -/
def EngineCollector.handle (noneId : ℕ) (c : CollectionTarget) :
    PoolEvent → CollectionTarget × List Complaint
  | .connect id => (connectEvt id c, [])
  | .checkout id => checkoutEvt id c
  | .checkin id => (checkinEvt (id.getD noneId) c, [])
  | .invalidate id => (invalidateEvt id c, [])
  | .softInvalidate id => (invalidateEvt id c, [])
  | .reset id => (resetEvt id c, [])
  | .close id => closeEvt id c
  | .detach id => (detachEvt id c, [])
  | .closeDetached id => closeDetachedEvt id c

/-- No event adds or removes a collector. -/
@[simp] theorem EngineCollector.collectors_handle (noneId : ℕ) (c : CollectionTarget)
    (event : PoolEvent) : (handle noneId c event).1.collectors = c.collectors := by
  have hremove : ∀ (id : ℕ) (c : CollectionTarget),
      (removeConnection id c).1.collectors = c.collectors := by
    intro id c
    unfold removeConnection
    split <;> rfl
  cases event with
  | checkout id =>
      rw [handle, checkoutEvt]
      split <;> rfl
  | close id => exact hremove ..
  | closeDetached id => exact hremove ..
  | _ => rfl

end SqlalchemyCollectd
