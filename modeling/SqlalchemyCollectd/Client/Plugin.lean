import SqlalchemyCollectd.Client.Collector
import SqlalchemyCollectd.Client.Worker
import SqlalchemyCollectd.CollectdTypes

/-!
# SqlalchemyCollectd.Client.Plugin

`start_plugin`, and what the worker sends afterwards.

Each engine gets a collector, which counts into the `CollectionTarget` of its program
name; the worker sends each target through each `Sender` it was started with. There is
one target for a program name and one sender for a host name, a program name and a
destination, so both objects are modelled by the keys of their registries. The engines
stay alive, so the weak set of the collectors of a target only grows.
-/

namespace SqlalchemyCollectd

/-! ### Senders -/

/-- `Sender`, with the arguments of `get_sender`. -/
structure Sender where
  hostname : String
  statsName : String
  collectdHost : String
  collectdPort : ℤ
  deriving DecidableEq

namespace Sender

/-- `_send_pool`. -/
def sendPool (values : Values Number) (c : CollectionTarget) : Values Number :=
  { values with
    type := poolInternal.name
    values := [.int c.numPools, .int c.numCheckedout, .int c.numCheckedin, .int c.numDetached,
      .int c.numConnections] }

/-- `_send_connection_totals`. -/
def sendConnectionTotals (values : Values Number) (c : CollectionTarget) : Values Number :=
  { values with
    type := totalsInternal.name
    values := [.int c.totalCheckouts, .int c.totalInvalidated, .int c.totalConnects,
      .int c.totalDisconnects] }

/-- The `Values` objects that `Sender.send` passes on to the network sender for
`collectd_host` and `collectd_port`. -/
def send (sender : Sender) (c : CollectionTarget) (timestamp interval : ℚ)
    (processToken : String) : List (Values Number) :=
  let values : Values Number :=
    { host := sender.hostname, plugin := "sqlalchemy", pluginInstance := sender.statsName,
      typeInstance := processToken, interval, time := timestamp }
  [sendPool values c, sendConnectionTotals values c]

/-- What is sent tells the number of pools and of checkouts. -/
theorem send_inj {sender : Sender} {c c' : CollectionTarget} {timestamp interval : ℚ}
    {processToken : String} (h : sender.send c timestamp interval processToken =
      sender.send c' timestamp interval processToken) :
    c.numPools = c'.numPools ∧ c.totalCheckouts = c'.totalCheckouts := by
  simp only [send, sendPool, sendConnectionTotals, List.cons.injEq, Values.mk.injEq,
    Number.int.injEq, Nat.cast_inj] at h
  exact ⟨h.1.2.2.2.2.2.2.2.1, h.2.1.2.2.2.2.2.2.2.1⟩

end Sender

/-! ### `start_plugin` -/

/-- `socket.gethostname()` and `os.path.basename(sys.argv[0])`. -/
structure Environment where
  gethostname : String
  basename : String

namespace Plugin

/-- A call of `start_plugin`. -/
structure Call where
  engine : ℕ
  hostname : Option String := none
  progname : Option String := none
  collectdHost : String := "localhost"
  collectdPort : ℤ := 25827

/-- The sender of a call, for the arguments with their defaults filled in. -/
def Call.sender (env : Environment) (call : Call) : Sender where
  hostname := call.hostname.getD env.gethostname
  statsName := call.progname.getD env.basename
  collectdHost := call.collectdHost
  collectdPort := call.collectdPort

end Plugin

/-- The registries of a process. -/
structure Plugin where
  /-- `CollectionTarget.targets`. -/
  targets : OrderedDict String CollectionTarget := .empty
  /-- The collectors that listen to the pools, in the order in which they were made: the
  engine and the name of the target. -/
  listeners : List (ℕ × String) := []
  worker : Worker.State (String × Sender) := {}

namespace Plugin

/-- `CollectionTarget.collection_for_name`. -/
def collectionForName (name : String) (s : Plugin) : CollectionTarget × Plugin :=
  match s.targets.get? name with
  | some target => (target, s)
  | none => ({}, { s with targets := s.targets.set name {} })

/-- `EngineCollector(collection_target, engine)`, for the target with a name. -/
def engineCollector (engine : ℕ) (name : String) (target : CollectionTarget) (s : Plugin) :
    Plugin :=
  { s with
    targets := s.targets.set name { target with collectors := target.collectors ++ [engine] }
    listeners := s.listeners ++ [(engine, name)] }

/-- `start_plugin`. -/
def startPlugin (env : Environment) (call : Call) (s : Plugin) : Plugin :=
  let sender := call.sender env
  let (target, s) := s.collectionForName sender.statsName
  let s := s.engineCollector call.engine sender.statsName target
  { s with worker := Worker.addTarget (sender.statsName, sender) s.worker }

/-! ### Pool events -/

/-- The complaint is raised, not just logged. -/
def raises : Complaint → Bool
  | .keyError _ => true
  | .missingConnection _ => false
  | .detached _ => false

/-- The listeners of an engine, by the names of their targets, handle an event one after
the other. An exception keeps the event from those that are left. -/
def dispatch (noneId : ℕ) (event : PoolEvent) :
    List String → OrderedDict String CollectionTarget → OrderedDict String CollectionTarget
  | [], targets => targets
  | name :: names, targets =>
      match targets.get? name with
      | none => dispatch noneId event names targets
      | some target =>
          let (target, complaints) := EngineCollector.handle noneId target event
          let targets := targets.set name target
          if complaints.any raises then targets else dispatch noneId event names targets

/-- The targets of the collectors of an engine. -/
def listenersOf (engine : ℕ) (s : Plugin) : List String :=
  (s.listeners.filter fun listener => listener.1 = engine).map Prod.snd

/-- An event in the pool of an engine. A connection makes sure that the worker runs. -/
def poolEvent (noneId engine : ℕ) (event : PoolEvent) (s : Plugin) : Plugin :=
  { s with
    targets := dispatch noneId event (s.listenersOf engine) s.targets
    worker := match event, s.listenersOf engine with
      | .connect _, _ :: _ => Worker.checkThreadsStarted s.worker
      | _, _ => s.worker }

/-- What happens in the process: an engine is created, or its pool is used. -/
inductive Action
  | start (call : Call)
  | event (engine : ℕ) (event : PoolEvent)

def step (env : Environment) (noneId : ℕ) (s : Plugin) : Action → Plugin
  | .start call => s.startPlugin env call
  | .event engine event => s.poolEvent noneId engine event

/-- The state after a run. -/
def run (env : Environment) (noneId : ℕ) (actions : List Action) : Plugin :=
  actions.foldl (step env noneId) {}

/-- What the worker sends through a sender when it goes over its pairs. -/
def sent (sender : Sender) (timestamp : ℚ) (processToken : String) (s : Plugin) :
    List (Values Number) :=
  (s.worker.targets.keys.filter fun pair => pair.2 = sender).flatMap fun pair =>
    match s.targets.get? pair.1 with
    | some target => sender.send target timestamp Worker.interval processToken
    | none => []

end Plugin

end SqlalchemyCollectd
