import SqlalchemyCollectd.Protocol.Values

/-!
# SqlalchemyCollectd.CollectdTypes

The collectd types in use: three internal ones between the client and the server
plugin, and the two external ones that collectd itself knows.

The receiver has one bucket for each internal type, so the internal types are an
enumeration; `InternalType.toType` gives each its `Type` object.
-/

namespace SqlalchemyCollectd

/-- `COLLECTD_PLUGIN_NAME`. -/
def collectdPluginName : String := "sqlalchemy"

/-- `pool_internal`. -/
def poolInternal : CollectdType where
  name := "sqlalchemy_pool"
  dbTemplate := [("numpools", .gauge), ("checkedout", .gauge), ("checkedin", .gauge),
    ("detached", .gauge), ("connections", .gauge)]
  fits := by decide

/-- `process_internal`. -/
def processInternal : CollectdType where
  name := "sqlalchemy_process"
  dbTemplate := [("numprocs", .gauge)]
  fits := by decide

/-- `totals_internal`. -/
def totalsInternal : CollectdType where
  name := "sqlalchemy_totals"
  dbTemplate := [("checkouts", .derive), ("invalidated", .derive), ("connects", .derive),
    ("disconnects", .derive)]
  fits := by decide

/-- `count_external`. -/
def countExternal : CollectdType where
  name := "count"
  dbTemplate := [("value", .gauge)]
  fits := by decide

/-- `derive_external`. -/
def deriveExternal : CollectdType where
  name := "derive"
  dbTemplate := [("value", .derive)]
  fits := by decide

/-- The types that `Receiver.collectd_types` lists. -/
inductive InternalType
  | pool
  | totals
  | process
  deriving DecidableEq, Repr

namespace InternalType

def toType : InternalType → CollectdType
  | pool => poolInternal
  | totals => totalsInternal
  | process => processInternal

def name (τ : InternalType) : String := τ.toType.name

/-- `Receiver.collectd_types`. -/
def all : List InternalType := [pool, totals, process]

theorem mem_all (τ : InternalType) : τ ∈ all := by
  cases τ <;> decide

/-- The key lookup in `self.buckets`. -/
def ofName? (name : String) : Option InternalType := all.find? fun τ => τ.name = name

@[simp] theorem ofName?_name (τ : InternalType) : ofName? τ.name = some τ := by
  cases τ <;> decide

theorem name_of_ofName? {name : String} {τ : InternalType} (h : ofName? name = some τ) :
    τ.name = name := by
  simpa using List.find?_some h

theorem name_injective : Function.Injective name := fun σ τ h => by
  simpa using congrArg ofName? h

end InternalType

end SqlalchemyCollectd
