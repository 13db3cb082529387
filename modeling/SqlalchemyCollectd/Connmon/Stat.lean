import SqlalchemyCollectd.Lib.OrderedDict
import SqlalchemyCollectd.Protocol.Sum

/-!
# SqlalchemyCollectd.Connmon.Stat

What connmon keeps: a `HostProg` for each program of a host and one for each host.

`Stat.update` takes one message from collectd. It finds the row of the message
by its host and its plugin instance, where `"host"` stands for the host itself,
and hands the value to the updater that is registered for the type instance. Rows
are mutable objects in Python, so an updater that raises leaves behind what it has
written up to there; `EStateM` keeps the state in the same way.
-/

namespace SqlalchemyCollectd

/-- `HostProg`, one row of the display. -/
structure HostProg where
  lastTime : ℚ := 0
  hostname : String
  progname : Option String
  /-- `pool_internal.checkedout`. -/
  checkoutCount : Option Number := none
  maxCheckedout : Number := .int 0
  /-- `process_internal.numprocs`. -/
  processCount : Option Number := none
  maxProcessCount : Number := .int 0
  /-- `pool_internal.connections`. -/
  connectionCount : Option Number := none
  maxConnections : Number := .int 0
  /-- `totals_internal.connects`. -/
  totalConnects : Option Number := none
  /-- Growth of `totals_internal.connects` over the last interval. -/
  intervalConnects : Option Number := none
  /-- `totals_internal.checkouts`. -/
  totalCheckouts : Option Number := none
  /-- Growth of `totals_internal.checkouts` over the last interval. -/
  intervalCheckouts : Option Number := none
  lastTotalCheckoutTime : Option ℚ := none
  checkoutsPerSecond : Option Float := none
  interval : ℚ := 0
  deriving DecidableEq

namespace HostProg

/-! ### The updaters -/

/-- `update_process_count`. -/
def updateProcessCount (value : Number) (hostprog : HostProg) : HostProg :=
  { hostprog with
    processCount := value
    maxProcessCount := value.pyMax hostprog.maxProcessCount }

/-- `update_checkedout`. -/
def updateCheckedout (value : Number) (hostprog : HostProg) : HostProg :=
  { hostprog with
    checkoutCount := value
    maxCheckedout := hostprog.maxCheckedout.pyMax value }

/-- `update_connection_count`. -/
def updateConnectionCount (value : Number) (hostprog : HostProg) : HostProg :=
  { hostprog with
    connectionCount := value
    maxConnections := hostprog.maxConnections.pyMax value }

/-- `update_total_connects`. -/
def updateTotalConnects (value : Number) (hostprog : HostProg) : HostProg :=
  { hostprog with
    intervalConnects := match hostprog.totalConnects with
      | some total => some (value - total)
      | none => hostprog.intervalConnects
    totalConnects := value }

/-- The end of `update_total_checkouts`. -/
def storeTotalCheckouts (time : ℚ) (value : Number) (hostprog : HostProg) : HostProg :=
  { hostprog with totalCheckouts := value, lastTotalCheckoutTime := time }

/-- `update_total_checkouts`. A last time of 0 counts as none. -/
def updateTotalCheckouts (time interval : ℚ) (value : Number) : EStateM PyError HostProg Unit :=
  fun hostprog =>
    let last := hostprog.lastTotalCheckoutTime.getD 0
    if last = 0 then .ok () (hostprog.storeTotalCheckouts time value)
    else match hostprog.totalCheckouts with
      | none => .error .assertionError hostprog
      | some total =>
          let hostprog := { hostprog with intervalCheckouts := some (value - total) }
          let timeDelta := time - last
          if timeDelta ≥ interval ∧ Number.lt (.int 0) total then
            match (value - total).trueDiv timeDelta with
            | .ok rate =>
                .ok () (storeTotalCheckouts time value
                  { hostprog with checkoutsPerSecond := some rate })
            | .error e => .error e hostprog
          else .ok () (hostprog.storeTotalCheckouts time value)

/-- The registry `_hostproc_updaters`, by the name that `@updates` gives. -/
def updater? (m : Message Number) : Option (Number → EStateM PyError HostProg Unit) :=
  match m.typeInstance with
  | "numprocs" => some fun value => modify (updateProcessCount value)
  | "checkedout" => some fun value => modify (updateCheckedout value)
  | "connections" => some fun value => modify (updateConnectionCount value)
  | "connects" => some fun value => modify (updateTotalConnects value)
  | "checkouts" => some (updateTotalCheckouts m.time m.interval)
  | _ => none

/-- What `_update` does to the row of a message. -/
def receive (m : Message Number) : EStateM PyError HostProg Unit := do
  match updater? m with
  | none => pure ()
  | some updater =>
      match m.values with
      | [] => throw .indexError
      | value :: _ =>
          updater value
          modify fun hostprog => { hostprog with interval := m.interval, lastTime := m.time }

/-- `HostProg.kill_processes`. -/
def killProcesses (hostprog : HostProg) : HostProg :=
  { hostprog with
    processCount := some 0
    connectionCount := some 0
    checkoutCount := some 0
    checkoutsPerSecond := some (Float.nearest 0) }

/-- `is_connected` of `row_for_hostprog`, the truth of the process count. -/
def isConnected (hostprog : HostProg) : Bool :=
  match hostprog.processCount with
  | none => false
  | some count => decide (count.value? ≠ Number.value? 0)

end HostProg

/-! ### The monitor -/

/-- The rows and the totals of a `Stat`. -/
structure Stat where
  hostCount : ℕ := 0
  maxHostCount : ℕ := 0
  processCount : Number := .int 0
  maxProcessCount : Number := .int 0
  connectionCount : Number := .int 0
  maxConnections : Number := .int 0
  checkoutCount : Number := .int 0
  maxCheckedout : Number := .int 0
  checkoutsPerSecond : Option Number := none
  hostprogs : OrderedDict (String × String) HostProg := .empty
  hosts : OrderedDict String HostProg := .empty

namespace Stat

/-- Where `_get_hostprog` looks: `none` is the row of the host itself. -/
def rowName (progname : String) : Option String := if progname = "host" then none else progname

/-- The row of a host or of one of its programs, if there is one. -/
def row? (hostname : String) (progname : Option String) (st : Stat) : Option HostProg :=
  match progname with
  | none => st.hosts.get? hostname
  | some progname => st.hostprogs.get? (hostname, progname)

/-- The row object, once it is written to. -/
def setRow (hostname : String) (progname : Option String) (hostprog : HostProg) (st : Stat) :
    Stat :=
  match progname with
  | none => { st with hosts := st.hosts.set hostname hostprog }
  | some progname => { st with hostprogs := st.hostprogs.set (hostname, progname) hostprog }

/-- `Stat._get_hostprog`, which makes a new row if there is none. -/
def getHostprog (hostname : String) (progname : Option String) : EStateM PyError Stat HostProg := do
  match (← get).row? hostname progname with
  | some hostprog => return hostprog
  | none =>
      let hostprog : HostProg := { hostname, progname }
      modify (setRow hostname progname hostprog)
      return hostprog

/-- What is done to a row object, seen from the `Stat` that holds it. -/
def onRow (hostname : String) (progname : Option String) (hostprog : HostProg)
    (act : EStateM PyError HostProg Unit) : EStateM PyError Stat Unit := fun st =>
  match act hostprog with
  | .ok _ hostprog => .ok () (st.setRow hostname progname hostprog)
  | .error e hostprog => .error e (st.setRow hostname progname hostprog)

/-- `Stat._update`, for a message that was received. -/
def update (m : Message Number) : EStateM PyError Stat Unit := do
  let progname := rowName m.pluginInstance
  let hostprog ← getHostprog m.host progname
  onRow m.host progname hostprog (HostProg.receive m)

/-- `sum(... for hostprog in self.hostprogs.values() if ... is not None)`. -/
def sumRows (field : HostProg → Option Number) (st : Stat) : Number :=
  pySum ((st.hostprogs.items.map Prod.snd).filterMap field)

/-- `Stat.update_host_stats`. -/
def updateHostStats (st : Stat) : Stat :=
  let hostCount := (st.hostprogs.keys.map Prod.fst).toFinset.card
  let processCount := st.sumRows HostProg.processCount
  let connectionCount := st.sumRows HostProg.connectionCount
  let checkoutCount := st.sumRows HostProg.checkoutCount
  { st with
    hostCount, processCount, connectionCount, checkoutCount
    checkoutsPerSecond := st.sumRows fun hostprog => hostprog.checkoutsPerSecond.map .float
    maxHostCount := max st.maxHostCount hostCount
    maxProcessCount := st.maxProcessCount.pyMax processCount
    maxCheckedout := st.maxCheckedout.pyMax checkoutCount
    maxConnections := st.maxConnections.pyMax connectionCount }

/-- `del self.hostprogs[(hostprog.hostname, hostprog.progname)]`. -/
def delHostprog (hostprog : HostProg) : EStateM PyError Stat Unit := fun st =>
  match hostprog.progname with
  | some progname =>
      if (hostprog.hostname, progname) ∈ st.hostprogs.keys then
        .ok () { st with hostprogs := st.hostprogs.erase (hostprog.hostname, progname) }
      else .error .keyError st
  | none => .error .keyError st

/-- The body of the `for` loop of `_process_hostprogs`, for the row that is held under
`key`. Its interval is a number from the start, never `None`. -/
def ageHostprog (now : ℚ) (key : String × String) (hostprog : HostProg) :
    EStateM PyError Stat Unit :=
  let age := now - hostprog.lastTime
  if hostprog.interval * 5 < age then delHostprog hostprog
  else if hostprog.interval * 2 < age then
    modify fun st => { st with hostprogs := st.hostprogs.set key hostprog.killProcesses }
  else pure ()

/-- One round of the `while` loop of `_process_hostprogs`, at time `now`. -/
def processHostprogs (now : ℚ) : EStateM PyError Stat Unit := do
  modify updateHostStats
  (← get).hostprogs.items.forM fun (key, hostprog) => ageHostprog now key hostprog

/-! ### Runs -/

/-- What happens to a `Stat`: a message is received, or the rows are processed. -/
inductive Event
  | message (m : Message Number)
  | pass (now : ℚ)

/-- The state after an event. An exception of `_update` is logged and ignored. -/
def step (st : Stat) : Event → Stat
  | .message m =>
      match update m st with
      | .ok _ st => st
      | .error _ st => st
  | .pass now =>
      match processHostprogs now st with
      | .ok _ st => st
      | .error _ st => st

/-- The state after a run of events on a new `Stat`. -/
def run (events : List Event) : Stat := events.foldl step {}

end Stat

end SqlalchemyCollectd
