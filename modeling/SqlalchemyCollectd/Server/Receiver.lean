import Mathlib.Data.List.Sort
import Mathlib.Data.Prod.Lex
import Mathlib.Data.String.Basic
import SqlalchemyCollectd.Lib.GroupBy
import SqlalchemyCollectd.Stream.TimeBucket
import SqlalchemyCollectd.Stream.Translator

/-!
# SqlalchemyCollectd.Server.Receiver

`Receiver`: the messages of all processes, and their summaries.

There is one `TimeBucket` for each internal type, keyed by host, program and
process token. `setStats` stores a message; `summarize` goes over the types
twice each, once by program and once by host, and yields the aggregated external
values. Both may raise half way, and both leave behind what they did up to there.
-/

namespace SqlalchemyCollectd

/-! ### Keys -/

/-- The key of a record: `(hostname, progname, process_token)`. -/
@[ext] structure ProcessKey where
  hostname : String
  progname : String
  token : String

namespace ProcessKey

/-- The key as a tuple, compared lexicographically. -/
def toTuple (k : ProcessKey) : String ×ₗ String ×ₗ String :=
  toLex (k.hostname, toLex (k.progname, k.token))

theorem toTuple_injective : Function.Injective toTuple := fun k k' h => by
  obtain ⟨hhost, h⟩ := Prod.ext_iff.mp (toLex.injective h)
  obtain ⟨hprog, htoken⟩ := Prod.ext_iff.mp (toLex.injective h)
  exact ProcessKey.ext hhost hprog htoken

instance : LinearOrder ProcessKey := LinearOrder.lift' toTuple toTuple_injective

theorem le_iff {k k' : ProcessKey} :
    k ≤ k' ↔ k.hostname < k'.hostname ∨ k.hostname = k'.hostname ∧
      (k.progname < k'.progname ∨ k.progname = k'.progname ∧ k.token ≤ k'.token) := by
  show k.toTuple ≤ k'.toTuple ↔ _
  rw [toTuple, toTuple, Prod.Lex.toLex_le_toLex, Prod.Lex.toLex_le_toLex]

end ProcessKey

/-- The two ways of `summarize` to group the records of a type. -/
inductive Grouping
  | byProgname
  | byHostname
  deriving DecidableEq, Repr

namespace Grouping

/-- `itertools.groupby` of `get_stats_by_progname` and `get_stats_by_hostname`. -/
def groups : Grouping → List ProcessKey → List (List ProcessKey)
  | byProgname, keys => keys.groupby fun k => toLex (k.hostname, k.progname)
  | byHostname, keys => keys.groupby ProcessKey.hostname

/-- `.build(...)` of `get_stats_by_progname` and `get_stats_by_hostname`. -/
def build {α : Type} (timestamp interval : ℚ) : Grouping → Values α → Values α
  | byProgname, v => { v with time := timestamp, interval }
  | byHostname, v => { v with pluginInstance := "host", time := timestamp, interval }

@[simp] theorem build_values {α : Type} (timestamp interval : ℚ) (g : Grouping) (v : Values α) :
    (g.build timestamp interval v).values = v.values := by
  cases g <;> rfl

@[simp] theorem build_type {α : Type} (timestamp interval : ℚ) (g : Grouping) (v : Values α) :
    (g.build timestamp interval v).type = v.type := by
  cases g <;> rfl

@[simp] theorem build_host {α : Type} (timestamp interval : ℚ) (g : Grouping) (v : Values α) :
    (g.build timestamp interval v).host = v.host := by
  cases g <;> rfl

@[simp] theorem build_plugin {α : Type} (timestamp interval : ℚ) (g : Grouping) (v : Values α) :
    (g.build timestamp interval v).plugin = v.plugin := by
  cases g <;> rfl

@[simp] theorem build_time {α : Type} (timestamp interval : ℚ) (g : Grouping) (v : Values α) :
    (g.build timestamp interval v).time = some timestamp := by
  cases g <;> rfl

@[simp] theorem build_interval {α : Type} (timestamp interval : ℚ) (g : Grouping)
    (v : Values α) : (g.build timestamp interval v).interval = interval := by
  cases g <;> rfl

end Grouping

/-! ### The receiver -/

/-- The buckets of a `Receiver`. -/
structure Receiver (α : Type) where
  buckets : InternalType → TimeBucket ProcessKey (Message α) := fun _ => {}

/-- The key under which a message is stored. -/
def Message.key {α : Type} (m : Message α) : ProcessKey :=
  ⟨m.host, m.pluginInstance, m.typeInstance⟩

/-- `values.build(type=process_internal.name, values=[1])`. -/
def Message.processRecord {α : Type} [One α] (m : Message α) : Message α :=
  { m with type := InternalType.process.name, values := [1] }

namespace Receiver

variable {α : Type}

/-- The receiver with one bucket replaced. -/
def setBucket (τ : InternalType) (b : TimeBucket ProcessKey (Message α)) (s : Receiver α) :
    Receiver α :=
  ⟨Function.update s.buckets τ b⟩

@[simp] theorem setBucket_same (τ : InternalType) (b : TimeBucket ProcessKey (Message α))
    (s : Receiver α) : (s.setBucket τ b).buckets τ = b :=
  Function.update_self ..

theorem setBucket_of_ne {σ τ : InternalType} (h : σ ≠ τ)
    (b : TimeBucket ProcessKey (Message α)) (s : Receiver α) :
    (s.setBucket τ b).buckets σ = s.buckets σ :=
  Function.update_of_ne h ..

/-- An access to one of the buckets. -/
def onBucket {β : Type} (τ : InternalType)
    (access : EStateM PyError (TimeBucket ProcessKey (Message α)) β) :
    EStateM PyError (Receiver α) β := fun s =>
  match access (s.buckets τ) with
  | .ok a b => .ok a (s.setBucket τ b)
  | .error e b => .error e (s.setBucket τ b)

section SetStats

variable [One α]

/-- `Receiver._set_stats`. -/
def setStats (m : Message α) : EStateM PyError (Receiver α) Unit := do
  match InternalType.ofName? m.type with
  | none => throw .keyError
  | some τ =>
      onBucket τ (TimeBucket.getData m.time (some (m.interval * 2)))
      onBucket τ (TimeBucket.setItem m.time (m.interval * 2) m.key m)
      if m.typeInstance ≠ "" then
        onBucket .process (TimeBucket.getData m.time (some (m.interval * 5)))
        onBucket .process
          (TimeBucket.setItem m.time (m.interval * 5) m.key m.processRecord)

end SetStats

section Summarize

variable [Add α] [Zero α]

/-- `[records[key] for key in keys]`. -/
def readRecords (b : TimeBucket ProcessKey (Message α)) (keys : List ProcessKey) :
    Except PyError (List (Message α)) :=
  keys.mapM b.getItem

/-- The `Values` object that one group is summed up to. -/
def aggregate (g : Grouping) (timestamp : ℚ) : List (Message α) → Except PyError (Values α)
  | [] => .error .indexError
  | first :: rest =>
      .ok (g.build timestamp first.interval
        (Values.sum first.toValues (rest.map Message.toValues)))

/-- What `summarize` yields for one group of keys. -/
def summarizeGroup (g : Grouping) (timestamp : ℚ) (b : TimeBucket ProcessKey (Message α))
    (keys : List ProcessKey) : Yielded (Values α) :=
  match readRecords b keys >>= aggregate g timestamp with
  | .ok v => breakIntoIndividualValues InternalType.types v
  | .error e => ⟨[], some e⟩

/-- The groups that a pass finds when it starts. -/
def groupsOf (g : Grouping) (b : TimeBucket ProcessKey (Message α)) : List (List ProcessKey) :=
  g.groups (b.bucket.keys.insertionSort (· ≤ ·))

/-- One pass of `summarize`: `get_stats_by_progname` or `get_stats_by_hostname` for
one type, with its results broken into individual values. -/
def summarizePass (timestamp : ℚ) (τ : InternalType) (g : Grouping) (s : Receiver α) :
    Yielded (Values α) × Receiver α :=
  match onBucket τ (TimeBucket.getData timestamp none) s with
  | .ok _ s => (.collect (summarizeGroup g timestamp (s.buckets τ)) (groupsOf g (s.buckets τ)), s)
  | .error e s => (⟨[], some e⟩, s)

/-- The passes of `summarize`, in order. -/
def passes : List (InternalType × Grouping) :=
  InternalType.all.flatMap fun τ => [(τ, .byProgname), (τ, .byHostname)]

/-- Passes one after the other, up to the first that raises. -/
def summarizePasses (timestamp : ℚ) :
    List (InternalType × Grouping) → Receiver α → Yielded (Values α) × Receiver α
  | [], s => ({}, s)
  | (τ, g) :: ps, s =>
      let (yielded, s) := summarizePass timestamp τ g s
      match yielded.raised with
      | some _ => (yielded, s)
      | none =>
          let (rest, s) := summarizePasses timestamp ps s
          (yielded.andThen rest, s)

/-- `Receiver.summarize`, run to its end. -/
def summarize (timestamp : ℚ) (s : Receiver α) : Yielded (Values α) × Receiver α :=
  summarizePasses timestamp passes s

end Summarize

/-! ### Runs -/

/-- What the plugin does with its receiver: `receive` stores a message, `read`
takes a summary. -/
inductive Op (α : Type)
  | setStats (m : Message α)
  | summarize (timestamp : ℚ)
  deriving DecidableEq

variable [Add α] [Zero α] [One α]

/-- The state after an operation. An exception is logged and ignored, by
`AsyncWorker` for `setStats` and by collectd for `read`. -/
def step (s : Receiver α) : Op α → Receiver α
  | .setStats m =>
      match setStats m s with
      | .ok _ s => s
      | .error _ s => s
  | .summarize timestamp => (summarize timestamp s).2

/-- The state after a run of operations on a fresh receiver. -/
def run (ops : List (Op α)) : Receiver α := ops.foldl step {}

end Receiver

end SqlalchemyCollectd
