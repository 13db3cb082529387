import Mathlib.Data.List.Infix
import Mathlib.Logic.Function.Basic
import SqlalchemyCollectd.Lib.Transition

/-!
# SqlalchemyCollectd.Client.Fork

The client in a program that forks.

A forked process has a copy of the memory of its parent, but none of its threads. The
worker module notices that by the process id: where the one it has recorded is not its
own, it starts a worker of its own, and the sender makes a socket of its own in the same
way. So processes do not get in each other's way (`fork_safe`), as long as no process is
given an id that is recorded in its copy of the memory, as long as a process that has come
by a socket in this way can make one of its own, and as long as no two threads of a process
are in `_check_threads_started` at the same time, which takes no lock.

What is not noticed is the mutex of a sender. A fork that comes while the worker is in
`send` leaves the child with a mutex that nobody will ever release, and a worker that waits
for it waits for ever (`reports_after_fork_iff`). To which of its pairs a worker comes next
depends on the times of their last reports, and is left open here.
-/

namespace SqlalchemyCollectd.Fork

open Transition

/-- `process_token` of `_process`, `uuid` being `str(uuid.uuid4())[0:6]`. -/
def processToken (pid : ℕ) (uuid : String) : String := pid.repr ++ ":" ++ uuid

/-- `SyncOnlyUDPClientSender`. -/
structure UDPSender where
  socket : Option ℕ := none
  pid : Option ℕ := none
  /-- `_mutex` is held. -/
  locked : Bool := false

namespace UDPSender

/-- `_check_connect` in process `ospid`: the socket to be used, `fresh` being the one that
`socket.socket` makes where it is called. -/
def checkConnect (ospid fresh : ℕ) (sender : UDPSender) : ℕ × UDPSender :=
  match sender.socket with
  | some socket =>
      if sender.pid = some ospid then (socket, sender)
      else (fresh, { sender with socket := fresh, pid := ospid })
  | none => (fresh, { sender with socket := fresh, pid := ospid })

/-- `_check_connect` where `socket.socket` raises: the process id has been stored before. -/
def connectRaises (ospid : ℕ) (sender : UDPSender) : UDPSender := { sender with pid := ospid }

end UDPSender

variable {δ : Type}

/-- Where a worker is in `SyncOnlyUDPClientSender.send`. -/
inductive Phase (δ : Type)
  | outside
  /-- In `_mutex.acquire()`. -/
  | waiting (destination : δ)
  /-- The mutex is held, and nothing has been sent. -/
  | entered (destination : δ)
  | left (destination : δ)
  deriving DecidableEq

/-- The destination whose mutex is held. -/
def Phase.holds : Phase δ → Option δ
  | .outside | .waiting _ => none
  | .entered destination | .left destination => some destination

structure Worker (δ : Type) where
  token : String
  phase : Phase δ := .outside

/-- A process. Its `number` tells it from those that had its id before. -/
structure Process (δ : Type) where
  number : ℕ
  /-- `_PID`. -/
  recorded : ℕ
  /-- `_WORKER_THREAD is not None`. -/
  workerThread : Bool := false
  /-- How many threads have found in `_check_threads_started` that a worker is wanted, and
  have not started one yet. -/
  checking : ℕ := 0
  /-- `SyncOnlyUDPClientSender.connections`. -/
  senders : δ → UDPSender := fun _ => {}
  /-- The threads that run `_process`. -/
  workers : List (Worker δ) := []

/-- A datagram on its way. -/
structure Transmission (δ : Type) where
  process : ℕ
  token : String
  socket : ℕ
  destination : δ

/-- The processes by their ids, and what has happened: who has made which socket, and what
was sent. -/
structure State (δ : Type) where
  alive : ℕ → Option (Process δ)
  processes : ℕ := 1
  owners : List ℕ := []
  sent : List (Transmission δ) := []

inductive Event (δ : Type)
  | fork (parent child : ℕ)
  /-- A thread comes to `_check_threads_started`. -/
  | look (pid : ℕ)
  /-- It starts a worker, having found that one is wanted. -/
  | launch (pid : ℕ) (uuid : String)
  /-- A worker calls `send`. -/
  | call (pid index : ℕ) (destination : δ)
  /-- It gets hold of the mutex. -/
  | acquire (pid index : ℕ)
  /-- `_check_connect` and `sendto`. -/
  | transmit (pid index : ℕ)
  /-- `_check_connect`, where it raises. -/
  | refuse (pid index : ℕ)
  | release (pid index : ℕ)
  /-- A worker exits. -/
  | stop (pid index : ℕ)
  | exit (pid : ℕ)

/-- The `if` of `_check_threads_started`. -/
def lookForWorker (ospid : ℕ) (p : Process δ) : Process δ :=
  if p.workerThread = false ∨ p.recorded ≠ ospid then { p with checking := p.checking + 1 }
  else p

/-- What comes after the `if`. -/
def launchWorker (ospid : ℕ) (uuid : String) (p : Process δ) : Process δ :=
  { p with
    checking := p.checking - 1
    recorded := ospid
    workerThread := true
    workers := p.workers ++ [{ token := processToken ospid uuid }] }

/-- What `os.fork` leaves of a process in its child. -/
def copy (number : ℕ) (p : Process δ) : Process δ :=
  { p with number, checking := 0, workers := [] }

variable [DecidableEq δ]

def setPhase (index : ℕ) (w : Worker δ) (phase : Phase δ) (p : Process δ) : Process δ :=
  { p with workers := p.workers.set index { w with phase } }

def setSender (destination : δ) (sender : UDPSender) (p : Process δ) : Process δ :=
  { p with senders := Function.update p.senders destination sender }

def setProcess (pid : ℕ) (p : Process δ) (s : State δ) : State δ :=
  { s with alive := Function.update s.alive pid p }

/-- The process with an id and one of its workers. -/
def worker? (s : State δ) (pid index : ℕ) : Option (Process δ × Worker δ) :=
  (s.alive pid).bind fun p => p.workers[index]?.map fun w => (p, w)

def step (s : State δ) : Event δ → Option (State δ)
  | .fork parent child =>
      -- a process gets an id that nobody has
      match s.alive parent, s.alive child with
      | some p, none =>
          some { setProcess child (copy s.processes p) s with processes := s.processes + 1 }
      | _, _ => none
  | .look pid => (s.alive pid).map fun p => setProcess pid (lookForWorker pid p) s
  | .launch pid uuid =>
      match s.alive pid with
      | some p =>
          if p.checking ≠ 0 then some (setProcess pid (launchWorker pid uuid p) s) else none
      | none => none
  | .call pid index destination =>
      match worker? s pid index with
      | some (p, w) =>
          if w.phase = .outside then
            some (setProcess pid (setPhase index w (.waiting destination) p) s)
          else none
      | none => none
  | .acquire pid index =>
      match worker? s pid index with
      | some (p, w) =>
          match w.phase with
          | .waiting destination =>
              if (p.senders destination).locked = false then
                some (setProcess pid (setPhase index w (.entered destination)
                  (setSender destination { p.senders destination with locked := true } p)) s)
              else none
          | .outside | .entered _ | .left _ => none
      | none => none
  | .transmit pid index =>
      match worker? s pid index with
      | some (p, w) =>
          match w.phase with
          | .entered destination =>
              let fresh := s.owners.length
              let (socket, sender) := (p.senders destination).checkConnect pid fresh
              some { setProcess pid (setPhase index w (.left destination)
                  (setSender destination sender p)) s with
                owners := if socket = fresh then s.owners ++ [p.number] else s.owners
                sent := s.sent ++ [⟨p.number, w.token, socket, destination⟩] }
          | .outside | .waiting _ | .left _ => none
      | none => none
  | .refuse pid index =>
      match worker? s pid index with
      | some (p, w) =>
          match w.phase with
          | .entered destination =>
              -- there is nothing to raise where the socket is there already
              if (p.senders destination).socket = none ∨
                  (p.senders destination).pid ≠ some pid then
                some (setProcess pid (setPhase index w (.left destination)
                  (setSender destination ((p.senders destination).connectRaises pid) p)) s)
              else none
          | .outside | .waiting _ | .left _ => none
      | none => none
  | .release pid index =>
      match worker? s pid index with
      | some (p, w) =>
          match w.phase with
          | .left destination =>
              some (setProcess pid (setPhase index w .outside
                (setSender destination { p.senders destination with locked := false } p)) s)
          | .outside | .waiting _ | .entered _ => none
      | none => none
  | .stop pid index =>
      match worker? s pid index with
      | some (p, w) =>
          if w.phase = .outside then
            some (setProcess pid { p with workers := p.workers.eraseIdx index } s)
          else none
      | none => none
  | .exit pid => (s.alive pid).map fun _ => { s with alive := Function.update s.alive pid none }

/-- A program that has just been started. -/
def start (pid : ℕ) : State δ where
  alive := Function.update (fun _ => none) pid (some { number := 0, recorded := pid })

/-- A forked process is not given an id that its memory knows, `socket.socket` does not
raise where a socket has been inherited, and threads come to `_check_threads_started` one
after the other. -/
def Safe (s : State δ) : Event δ → Prop
  | .fork parent child => ∀ p ∈ s.alive parent,
      p.recorded ≠ child ∧ ∀ destination, (p.senders destination).pid ≠ some child
  | .refuse pid index => ∀ p w destination, worker? s pid index = some (p, w) →
      w.phase = .entered destination → (p.senders destination).socket = none
  | .look pid => ∀ p ∈ s.alive pid, p.checking = 0
  | .launch _ _ | .call _ _ _ | .acquire _ _ | .transmit _ _ | .release _ _ | .stop _ _
  | .exit _ => True

/-! ### What a step does -/

/-- What one process does, and what becomes of the record. -/
inductive Moves (s : State δ) (pid : ℕ) (p : Process δ) :
    Event δ → Process δ → List ℕ → List (Transmission δ) → Prop
  | look : Moves s pid p (.look pid) (lookForWorker pid p) s.owners s.sent
  | launch (uuid : String) (hchecking : p.checking ≠ 0) :
      Moves s pid p (.launch pid uuid) (launchWorker pid uuid p) s.owners s.sent
  | call {index : ℕ} {w : Worker δ} (destination : δ) (hw : p.workers[index]? = some w)
      (houtside : w.phase = .outside) :
      Moves s pid p (.call pid index destination) (setPhase index w (.waiting destination) p)
        s.owners s.sent
  | acquire {index : ℕ} {w : Worker δ} {destination : δ} (hw : p.workers[index]? = some w)
      (hwaiting : w.phase = .waiting destination)
      (hfree : (p.senders destination).locked = false) :
      Moves s pid p (.acquire pid index)
        (setPhase index w (.entered destination)
          (setSender destination { p.senders destination with locked := true } p))
        s.owners s.sent
  | transmit {index : ℕ} {w : Worker δ} {destination : δ} (hw : p.workers[index]? = some w)
      (hentered : w.phase = .entered destination) {socket : ℕ} {sender : UDPSender}
      (hconnect : (p.senders destination).checkConnect pid s.owners.length = (socket, sender)) :
      Moves s pid p (.transmit pid index)
        (setPhase index w (.left destination) (setSender destination sender p))
        (if socket = s.owners.length then s.owners ++ [p.number] else s.owners)
        (s.sent ++ [⟨p.number, w.token, socket, destination⟩])
  | refuse {index : ℕ} {w : Worker δ} {destination : δ} (hw : p.workers[index]? = some w)
      (hentered : w.phase = .entered destination) :
      Moves s pid p (.refuse pid index)
        (setPhase index w (.left destination)
          (setSender destination ((p.senders destination).connectRaises pid) p))
        s.owners s.sent
  | release {index : ℕ} {w : Worker δ} {destination : δ} (hw : p.workers[index]? = some w)
      (hleft : w.phase = .left destination) :
      Moves s pid p (.release pid index)
        (setPhase index w .outside
          (setSender destination { p.senders destination with locked := false } p))
        s.owners s.sent
  | stop {index : ℕ} {w : Worker δ} (hw : p.workers[index]? = some w)
      (houtside : w.phase = .outside) :
      Moves s pid p (.stop pid index) { p with workers := p.workers.eraseIdx index } s.owners s.sent

theorem setSender_self (destination : δ) (p : Process δ) :
    setSender destination (p.senders destination) p = p := by
  unfold setSender
  rw [Function.update_eq_self]

omit [DecidableEq δ] in
theorem worker?_eq_some {s : State δ} {pid index : ℕ} {p : Process δ} {w : Worker δ}
    (h : worker? s pid index = some (p, w)) :
    s.alive pid = some p ∧ p.workers[index]? = some w := by
  obtain ⟨p', hp, h⟩ := Option.bind_eq_some_iff.mp h
  obtain ⟨w', hw, heq⟩ := Option.map_eq_some_iff.mp h
  cases heq
  exact ⟨hp, hw⟩

/-- **A step** is a fork, the end of a process, or something that one process does. -/
theorem step_cases {s s' : State δ} {event : Event δ} (h : step s event = some s') :
    (∃ parent child p, event = .fork parent child ∧ s.alive parent = some p ∧
      s.alive child = none ∧
      s' = { setProcess child (copy s.processes p) s with processes := s.processes + 1 }) ∨
    (∃ pid, event = .exit pid ∧ s' = { s with alive := Function.update s.alive pid none }) ∨
    ∃ pid p p' owners sent, s.alive pid = some p ∧ Moves s pid p event p' owners sent ∧
      s' = { setProcess pid p' s with owners, sent } := by
  cases event with
  | fork parent child =>
      simp only [step] at h
      split at h
      · rename_i p hparent hchild
        exact Or.inl ⟨parent, child, p, rfl, hparent, hchild, (Option.some.inj h).symm⟩
      · cases h
  | exit pid =>
      obtain ⟨p, -, rfl⟩ := Option.map_eq_some_iff.mp h
      exact Or.inr (Or.inl ⟨pid, rfl, rfl⟩)
  | look pid =>
      obtain ⟨p, hp, rfl⟩ := Option.map_eq_some_iff.mp h
      exact Or.inr (Or.inr ⟨pid, p, _, _, _, hp, .look, rfl⟩)
  | launch pid uuid =>
      simp only [step] at h
      split at h
      · rename_i p hp
        split at h
        · rename_i hchecking
          cases h
          exact Or.inr (Or.inr ⟨pid, p, _, _, _, hp, .launch uuid hchecking, rfl⟩)
        · cases h
      · cases h
  | call pid index destination =>
      simp only [step] at h
      split at h
      · rename_i p w hworker
        obtain ⟨hp, hw⟩ := worker?_eq_some hworker
        split at h
        · rename_i houtside
          cases h
          exact Or.inr (Or.inr ⟨pid, p, _, _, _, hp, .call destination hw houtside, rfl⟩)
        · cases h
      · cases h
  | acquire pid index =>
      simp only [step] at h
      split at h
      · rename_i p w hworker
        obtain ⟨hp, hw⟩ := worker?_eq_some hworker
        split at h
        · rename_i destination hwaiting
          split at h
          · rename_i hfree
            cases h
            exact Or.inr (Or.inr ⟨pid, p, _, _, _, hp, .acquire hw hwaiting hfree, rfl⟩)
          · cases h
        · cases h
        · cases h
        · cases h
      · cases h
  | transmit pid index =>
      simp only [step] at h
      split at h
      · rename_i p w hworker
        obtain ⟨hp, hw⟩ := worker?_eq_some hworker
        split at h
        · rename_i destination hentered
          cases h
          exact Or.inr (Or.inr ⟨pid, p, _, _, _, hp, .transmit hw hentered rfl, rfl⟩)
        · cases h
        · cases h
        · cases h
      · cases h
  | refuse pid index =>
      simp only [step] at h
      split at h
      · rename_i p w hworker
        obtain ⟨hp, hw⟩ := worker?_eq_some hworker
        split at h
        · rename_i destination hentered
          split at h
          · cases h
            exact Or.inr (Or.inr ⟨pid, p, _, _, _, hp, .refuse hw hentered, rfl⟩)
          · cases h
        · cases h
        · cases h
        · cases h
      · cases h
  | release pid index =>
      simp only [step] at h
      split at h
      · rename_i p w hworker
        obtain ⟨hp, hw⟩ := worker?_eq_some hworker
        split at h
        · rename_i destination hleft
          cases h
          exact Or.inr (Or.inr ⟨pid, p, _, _, _, hp, .release hw hleft, rfl⟩)
        · cases h
        · cases h
        · cases h
      · cases h
  | stop pid index =>
      simp only [step] at h
      split at h
      · rename_i p w hworker
        obtain ⟨hp, hw⟩ := worker?_eq_some hworker
        split at h
        · rename_i houtside
          cases h
          exact Or.inr (Or.inr ⟨pid, p, _, _, _, hp, .stop hw houtside, rfl⟩)
        · cases h
      · cases h

/-! ### One process -/

/-- What holds of a process with an id. -/
structure Process.Sound (owners : List ℕ) (pid : ℕ) (p : Process δ) : Prop where
  single : p.workers.length ≤ 1
  checking : p.checking ≤ 1
  wanted : p.checking ≠ 0 → p.workers = []
  recorded : p.workers ≠ [] → p.workerThread = true ∧ p.recorded = pid
  tokens : ∀ w ∈ p.workers, ∃ uuid, w.token = processToken pid uuid
  sockets : ∀ destination, (p.senders destination).pid = some pid →
    ∀ socket ∈ (p.senders destination).socket, owners[socket]? = some p.number
  holds : ∀ w ∈ p.workers, ∀ destination ∈ w.phase.holds, (p.senders destination).locked = true
  locked : p.number = 0 → ∀ destination, (p.senders destination).locked = true →
    ∃ w ∈ p.workers, w.phase.holds = some destination

section Moves

variable {s : State δ} {owners owners' : List ℕ} {sent' : List (Transmission δ)} {pid : ℕ}
  {p p' : Process δ} {event : Event δ}

omit [DecidableEq δ] in
theorem Process.Sound.workers_eq (h : p.Sound owners pid) {index : ℕ} {w : Worker δ}
    (hw : p.workers[index]? = some w) : index = 0 ∧ p.workers = [w] := by
  obtain ⟨hlt, hget⟩ := List.getElem?_eq_some_iff.mp hw
  have hindex : index = 0 := by
    have := h.single
    omega
  subst hindex
  cases hworkers : p.workers with
  | nil => simp [hworkers] at hw
  | cons w' rest =>
      have hlength := h.single
      rw [hworkers, List.length_cons] at hlength
      obtain rfl := List.eq_nil_of_length_eq_zero (by omega : rest.length = 0)
      rw [hworkers] at hw
      cases hw
      exact ⟨rfl, rfl⟩

omit [DecidableEq δ] in
theorem Process.Sound.mono (h : p.Sound owners pid) (howners : owners <+: owners') :
    p.Sound owners' pid := by
  refine { h with sockets := fun destination hpid socket hsocket => ?_ }
  obtain ⟨rest, rfl⟩ := howners
  have howner := h.sockets destination hpid socket hsocket
  rw [List.getElem?_append_left (List.getElem?_eq_some_iff.mp howner).1]
  exact howner

/-- The worker goes from one point of `send` to another, and the sender with it. -/
theorem Process.Sound.act (h : p.Sound owners pid) (howners : owners <+: owners') {index : ℕ}
    {w : Worker δ} (hw : p.workers[index]? = some w) {destination : δ} {sender : UDPSender}
    {phase : Phase δ} (hbefore : ∀ d, w.phase.holds = some d → d = destination)
    (hafter : ∀ d, phase.holds = some d → d = destination ∧ sender.locked = true)
    (hlocked : p.number = 0 → sender.locked = true → phase.holds = some destination)
    (hsocket : sender.pid = some pid →
      ∀ socket ∈ sender.socket, owners'[socket]? = some p.number) :
    (setPhase index w phase (setSender destination sender p)).Sound owners' pid := by
  obtain ⟨rfl, hworkers⟩ := h.workers_eq hw
  have hmem : w ∈ p.workers := hworkers ▸ List.mem_singleton_self w
  have hworkers' : (setPhase 0 w phase (setSender destination sender p)).workers =
      [{ w with phase }] := by
    simp [setPhase, setSender, hworkers]
  have hcases : ∀ d, ((setSender destination sender p).senders d).locked = true →
      d = destination ∧ sender.locked = true ∨
        d ≠ destination ∧ (p.senders d).locked = true := by
    intro d hd
    by_cases hdest : d = destination
    · subst hdest
      exact Or.inl ⟨rfl, by simpa [setSender] using hd⟩
    · exact Or.inr ⟨hdest, by simpa [setSender, hdest] using hd⟩
  constructor
  case single => simp [hworkers']
  case checking => exact h.checking
  case wanted => exact fun hchecking => absurd hmem (by simp [h.wanted hchecking])
  case recorded => exact fun _ => h.recorded (List.ne_nil_of_mem hmem)
  case tokens =>
    intro w' hw'
    rw [hworkers', List.mem_singleton] at hw'
    subst hw'
    exact h.tokens w hmem
  case sockets =>
    intro d hpid socket hget
    by_cases hdest : d = destination
    · subst hdest
      simp only [setPhase, setSender, Function.update_self] at hpid hget
      exact hsocket hpid socket hget
    · simp only [setPhase, setSender, Function.update_of_ne hdest] at hpid hget
      exact (h.mono howners).sockets d hpid socket hget
  case holds =>
    intro w' hw' d hd
    rw [hworkers', List.mem_singleton] at hw'
    subst hw'
    obtain ⟨rfl, hheld⟩ := hafter d hd
    simpa [setPhase, setSender] using hheld
  case locked =>
    intro hnumber d hd
    rw [hworkers']
    refine ⟨_, List.mem_singleton_self _, ?_⟩
    obtain ⟨rfl, hown⟩ | ⟨hdest, hd⟩ := hcases d hd
    · exact hlocked hnumber hown
    · obtain ⟨w', hw', hheld⟩ := h.locked hnumber d hd
      rw [hworkers, List.mem_singleton] at hw'
      exact absurd (hbefore d (hw' ▸ hheld)) hdest

omit [DecidableEq δ] in
/-- The socket that is used is one of the process. -/
theorem checkConnect_sound (h : p.Sound owners pid) {destination : δ} {socket : ℕ}
    {sender : UDPSender}
    (hconnect : (p.senders destination).checkConnect pid owners.length = (socket, sender)) :
    (if socket = owners.length then owners ++ [p.number] else owners)[socket]? = some p.number ∧
      sender.socket = some socket ∧ sender.locked = (p.senders destination).locked := by
  have hfresh : (if owners.length = owners.length then owners ++ [p.number]
      else owners)[owners.length]? = some p.number := by
    rw [if_pos rfl, List.getElem?_concat_length]
  simp only [UDPSender.checkConnect] at hconnect
  split at hconnect
  · rename_i socket' hsocket
    split at hconnect
    · rename_i hpid
      cases hconnect
      have howner := h.sockets destination hpid socket hsocket
      rw [if_neg (List.getElem?_eq_some_iff.mp howner).1.ne]
      exact ⟨howner, hsocket, rfl⟩
    · cases hconnect
      exact ⟨hfresh, rfl, rfl⟩
  · cases hconnect
    exact ⟨hfresh, rfl, rfl⟩

/-- What is recorded stays, and what is added to it is the doing of the process. -/
theorem Moves.frame (h : Moves s pid p event p' owners' sent') :
    p'.number = p.number ∧ s.owners <+: owners' ∧
      ∀ t ∈ sent', t ∈ s.sent ∨ t.process = p.number := by
  cases h with
  | look =>
      refine ⟨?_, List.prefix_rfl, fun t ht => Or.inl ht⟩
      unfold lookForWorker
      split <;> rfl
  | transmit hw hentered hconnect =>
      refine ⟨rfl, ?_, fun t ht => ?_⟩
      · split
        · exact List.prefix_append _ _
        · exact List.prefix_rfl
      · obtain ht | ht := List.mem_append.mp ht
        · exact Or.inl ht
        · exact Or.inr (List.mem_singleton.mp ht ▸ rfl)
  | launch | call | acquire | refuse | release | stop =>
      exact ⟨rfl, List.prefix_rfl, fun t ht => Or.inl ht⟩

/-- **What a process does** keeps it sound, and it sends through sockets of its own. -/
theorem Moves.sound (h : Moves s pid p event p' owners' sent') (hsound : p.Sound s.owners pid)
    (hsafe : Safe s event) (hp : s.alive pid = some p) :
    p'.Sound owners' pid ∧
      ∀ t ∈ sent', t ∈ s.sent ∨ t.process = p.number ∧ owners'[t.socket]? = some p.number := by
  have howners := h.frame.2.1
  cases h with
  | look =>
      refine ⟨?_, fun t ht => Or.inl ht⟩
      unfold lookForWorker
      split
      · rename_i hcond
        -- a worker is only wanted where this process has none
        have hworkers : p.workers = [] := by
          by_contra hne
          obtain ⟨hthread, hrecorded⟩ := hsound.recorded hne
          obtain hnone | hother := hcond
          · exact absurd hthread (by simp [hnone])
          · exact hother hrecorded
        have hchecking : p.checking = 0 := hsafe p hp
        exact { hsound with
          checking := by simp [hchecking]
          wanted := fun _ => hworkers }
      · exact hsound
  | launch uuid hchecking =>
      have hworkers : p.workers = [] := hsound.wanted hchecking
      refine ⟨?_, fun t ht => Or.inl ht⟩
      have hone := hsound.checking
      refine { hsound with
        single := by simp [launchWorker, hworkers]
        checking := by simp only [launchWorker]; omega
        wanted := fun hmore => absurd hmore (by simp only [launchWorker]; omega)
        recorded := fun _ => ⟨rfl, rfl⟩
        tokens := ?_
        holds := ?_
        locked := ?_ }
      · intro w hw
        rw [launchWorker, hworkers, List.nil_append, List.mem_singleton] at hw
        exact ⟨uuid, hw ▸ rfl⟩
      · intro w hw d hd
        rw [launchWorker, hworkers, List.nil_append, List.mem_singleton] at hw
        subst hw
        simp [Phase.holds] at hd
      · intro hnumber d hd
        obtain ⟨w, hw, -⟩ := hsound.locked hnumber d hd
        simp [hworkers] at hw
  | @call index w destination hw houtside =>
      refine ⟨?_, fun t ht => Or.inl ht⟩
      rw [← setSender_self destination p]
      refine hsound.act howners hw ?_ ?_ ?_ ?_
      · simp [houtside, Phase.holds]
      · simp [Phase.holds]
      · -- the only worker of the first process is not in `send`
        intro hnumber hlocked
        obtain ⟨w', hw', hheld⟩ := hsound.locked hnumber destination hlocked
        rw [(hsound.workers_eq hw).2, List.mem_singleton] at hw'
        simp [hw', houtside, Phase.holds] at hheld
      · exact hsound.sockets _
  | acquire hw hwaiting hfree =>
      refine ⟨hsound.act howners hw ?_ ?_ ?_ ?_, fun t ht => Or.inl ht⟩
      · simp [hwaiting, Phase.holds]
      · simp [Phase.holds, eq_comm]
      · exact fun _ _ => rfl
      · exact hsound.sockets _
  | @transmit index w destination hw hentered socket sender hconnect =>
      obtain ⟨howner, hsocket, hlocked⟩ := checkConnect_sound hsound hconnect
      have hheld : (p.senders destination).locked = true :=
        hsound.holds w (List.mem_of_getElem? hw) destination (by simp [hentered, Phase.holds])
      refine ⟨hsound.act howners hw ?_ ?_ ?_ ?_, ?_⟩
      · simp [hentered, Phase.holds, eq_comm]
      · simp [Phase.holds, hlocked, hheld, eq_comm]
      · exact fun _ _ => rfl
      · intro _ socket' hsocket'
        rw [hsocket, Option.mem_some_iff] at hsocket'
        exact hsocket' ▸ howner
      · intro t ht
        obtain ht | ht := List.mem_append.mp ht
        · exact Or.inl ht
        · obtain rfl := List.mem_singleton.mp ht
          exact Or.inr ⟨rfl, howner⟩
  | @refuse index w destination hw hentered =>
      have hheld : (p.senders destination).locked = true :=
        hsound.holds w (List.mem_of_getElem? hw) destination (by simp [hentered, Phase.holds])
      refine ⟨hsound.act howners hw ?_ ?_ ?_ ?_, fun t ht => Or.inl ht⟩
      · simp [hentered, Phase.holds, eq_comm]
      · simp [Phase.holds, UDPSender.connectRaises, hheld, eq_comm]
      · exact fun _ _ => rfl
      · intro _ socket hsocket
        -- a socket that came with a fork is kept out by `Safe`
        have hnone := hsafe p w destination (by simp [worker?, hp, hw]) hentered
        rw [UDPSender.connectRaises, hnone] at hsocket
        cases hsocket
  | release hw hleft =>
      refine ⟨hsound.act howners hw ?_ ?_ ?_ ?_, fun t ht => Or.inl ht⟩
      · simp [hleft, Phase.holds, eq_comm]
      · simp [Phase.holds]
      · simp
      · exact hsound.sockets _
  | stop hw houtside =>
      obtain ⟨rfl, hworkers⟩ := hsound.workers_eq hw
      refine ⟨?_, fun t ht => Or.inl ht⟩
      refine { hsound with
        single := by simp [hworkers]
        wanted := fun _ => by simp [hworkers]
        recorded := by simp [hworkers]
        tokens := by simp [hworkers]
        holds := by simp [hworkers]
        locked := ?_ }
      intro hnumber d hd
      obtain ⟨w', hw', hheld⟩ := hsound.locked hnumber d hd
      rw [hworkers, List.mem_singleton] at hw'
      simp [hw', houtside, Phase.holds] at hheld

end Moves

/-! ### All processes -/

/-- A number belongs to one process. -/
def Apart (s : State δ) : Prop :=
  ∀ pid p pid' p', s.alive pid = some p → s.alive pid' = some p' → p.number = p'.number →
    pid = pid'

structure Sound (s : State δ) : Prop where
  process : ∀ pid p, s.alive pid = some p → p.Sound s.owners pid ∧ p.number < s.processes
  numbers : Apart s
  positive : 0 < s.processes
  sent : ∀ t ∈ s.sent, t.process < s.processes ∧ s.owners[t.socket]? = some t.process

omit [DecidableEq δ] in
theorem sound_start (pid : ℕ) : Sound (start (δ := δ) pid) := by
  have honly : ∀ pid' p, (start pid).alive pid' = some p →
      pid' = pid ∧ p = ({ number := 0, recorded := pid } : Process δ) := by
    intro pid' p hp
    obtain rfl | hne := eq_or_ne pid' pid
    · exact ⟨rfl, by simpa [start, eq_comm] using hp⟩
    · simp [start, Function.update_of_ne hne] at hp
  refine ⟨fun pid' p hp => ?_, fun pid' p pid'' p' hp hp' _ => ?_, Nat.one_pos, by simp [start]⟩
  · obtain ⟨rfl, rfl⟩ := honly pid' p hp
    refine ⟨?_, Nat.one_pos⟩
    constructor <;> simp
  · exact (honly pid' p hp).1.trans (honly pid'' p' hp').1.symm

omit [DecidableEq δ] in
/-- A copy has no worker, no id of its own, and so no socket either. -/
theorem Process.Sound.copy {owners : List ℕ} {child number : ℕ} {p : Process δ}
    (hnumber : number ≠ 0) (hpid : ∀ destination, (p.senders destination).pid ≠ some child) :
    (Fork.copy number p).Sound owners child := by
  constructor
  case sockets => exact fun destination hown => absurd hown (hpid destination)
  case locked => exact fun hzero => absurd hzero hnumber
  all_goals simp [Fork.copy]

omit [DecidableEq δ] in
/-- A process with a number that no other one has keeps them apart. -/
theorem Apart.setProcess {s : State δ} {pid : ℕ} {p : Process δ} (hs : Apart s)
    (hnew : ∀ pid' p', pid' ≠ pid → s.alive pid' = some p' → p'.number ≠ p.number) :
    Apart (Fork.setProcess pid p s) := by
  have hcases : ∀ pid' p', (Fork.setProcess pid p s).alive pid' = some p' →
      pid' = pid ∧ p' = p ∨ pid' ≠ pid ∧ s.alive pid' = some p' := by
    intro pid' p' hp'
    by_cases hpid : pid' = pid
    · exact Or.inl ⟨hpid, by simpa [Fork.setProcess, hpid, eq_comm] using hp'⟩
    · exact Or.inr ⟨hpid, by simpa [Fork.setProcess, hpid] using hp'⟩
  intro pid₁ p₁ pid₂ p₂ h₁ h₂ hnumber
  obtain ⟨rfl, rfl⟩ | ⟨hne₁, hold₁⟩ := hcases pid₁ p₁ h₁
  · obtain ⟨rfl, -⟩ | ⟨hne₂, hold₂⟩ := hcases pid₂ p₂ h₂
    · rfl
    · exact absurd hnumber.symm (hnew pid₂ p₂ hne₂ hold₂)
  · obtain ⟨rfl, rfl⟩ | ⟨-, hold₂⟩ := hcases pid₂ p₂ h₂
    · exact absurd hnumber (hnew pid₁ p₁ hne₁ hold₁)
    · exact hs pid₁ p₁ pid₂ p₂ hold₁ hold₂ hnumber

theorem sound_step {s s' : State δ} {event : Event δ} (hs : Sound s) (hsafe : Safe s event)
    (h : step s event = some s') : Sound s' := by
  obtain ⟨parent, child, p, rfl, hparent, hchild, rfl⟩ | ⟨pid, rfl, rfl⟩ |
    ⟨pid, p, p', owners, sent, hp, hmoves, rfl⟩ := step_cases h
  -- a fork: the child has a number of its own, and no worker
  · have hpos := hs.positive
    refine ⟨fun pid q hq => ?_, hs.numbers.setProcess fun pid' q _ hq => ?_,
      Nat.succ_pos _, fun t ht => ?_⟩
    · by_cases hpid : pid = child
      · subst hpid
        obtain rfl : copy s.processes p = q := by simpa [setProcess] using hq
        exact ⟨.copy hpos.ne' (hsafe p hparent).2, Nat.lt_succ_self _⟩
      · have hq : s.alive pid = some q := by simpa [setProcess, hpid] using hq
        exact ⟨(hs.process pid q hq).1, Nat.lt_succ_of_lt (hs.process pid q hq).2⟩
    · exact (hs.process pid' q hq).2.ne
    · exact ⟨Nat.lt_succ_of_lt (hs.sent t ht).1, (hs.sent t ht).2⟩
  · have hleft : ∀ pid' q, Function.update s.alive pid none pid' = some q →
        s.alive pid' = some q := by
      intro pid' q hq
      by_cases hpid : pid' = pid
      · simp [hpid] at hq
      · simpa [hpid] using hq
    exact { hs with
      process := fun pid' q hq => hs.process pid' q (hleft pid' q hq)
      numbers := fun pid₁ p₁ pid₂ p₂ h₁ h₂ =>
        hs.numbers pid₁ p₁ pid₂ p₂ (hleft pid₁ p₁ h₁) (hleft pid₂ p₂ h₂) }
  -- what a process does is its own affair
  · obtain ⟨hsound, hlt⟩ := hs.process pid p hp
    obtain ⟨hsound', hsent⟩ := hmoves.sound hsound hsafe hp
    obtain ⟨hnumber, howners, -⟩ := hmoves.frame
    refine ⟨fun pid' q hq => ?_, hs.numbers.setProcess fun pid' q hne hq hown => ?_,
      hs.positive, fun t ht => ?_⟩
    · by_cases hpid : pid' = pid
      · subst hpid
        obtain rfl : p' = q := by simpa [setProcess] using hq
        exact ⟨hsound', hnumber ▸ hlt⟩
      · have hq : s.alive pid' = some q := by simpa [setProcess, hpid] using hq
        exact ⟨(hs.process pid' q hq).1.mono howners, (hs.process pid' q hq).2⟩
    · exact hne (hs.numbers pid' q pid p hq hp (hown.trans hnumber))
    · obtain hbefore | ⟨hprocess, howner⟩ := hsent t ht
      · obtain ⟨rest, rfl⟩ := howners
        obtain ⟨hlt, howner⟩ := hs.sent t hbefore
        refine ⟨hlt, ?_⟩
        rwa [List.getElem?_append_left (List.getElem?_eq_some_iff.mp howner).1]
      · exact ⟨hprocess ▸ hlt, hprocess ▸ howner⟩

theorem sound_run {pid : ℕ} {events : List (Event δ)} {s : State δ}
    (h : Run step Safe (start pid) events s) : Sound s :=
  h.invariant (P := fun _ s => Sound s) (sound_start pid)
    fun hs hsafe hstep => sound_step hs hsafe hstep

/-- Tokens of different process ids differ. -/
theorem processToken_injective {pid pid' : ℕ} {uuid uuid' : String}
    (h : processToken pid uuid = processToken pid' uuid') : pid = pid' := by
  have hdigits : ∀ (pid : ℕ) (uuid : String),
      (processToken pid uuid).toList.takeWhile (· != ':') = pid.repr.toList := by
    intro pid uuid
    have hcolon : ∀ c ∈ pid.repr.toList, (c != ':') = true := by
      intro c hc
      rw [Nat.toList_repr] at hc
      have hdigit := Nat.isDigit_of_mem_toDigits (by decide) (by decide) hc
      simp only [bne_iff_ne]
      rintro rfl
      exact absurd hdigit (by decide)
    simp only [processToken, String.toList_append, List.append_assoc]
    rw [List.takeWhile_append_of_pos hcolon]
    simp
  have hrepr : pid.repr.toList = pid'.repr.toList := by rw [← hdigits pid uuid, h, hdigits]
  rw [Nat.toList_repr, Nat.toList_repr] at hrepr
  have hvalue := congrArg (fun digits => Nat.ofDigitChars 10 digits 0) hrepr
  simpa [Nat.ofDigitChars_toDigits] using hvalue

/-- **Forked programs.** In every process there is at most one worker; the workers of
processes that are alive at the same time have different tokens; and what is sent through
one socket is sent by one process. -/
theorem fork_safe {pid₀ : ℕ} {events : List (Event δ)} {s : State δ}
    (h : Run step Safe (start pid₀) events s) :
    (∀ pid p, s.alive pid = some p → p.workers.length ≤ 1) ∧
      (∀ pid p w pid' p' w', s.alive pid = some p → s.alive pid' = some p' → w ∈ p.workers →
        w' ∈ p'.workers → w.token = w'.token → pid = pid' ∧ w = w') ∧
      ∀ t ∈ s.sent, ∀ t' ∈ s.sent, t.socket = t'.socket → t.process = t'.process := by
  have hs := sound_run h
  refine ⟨fun pid p hp => (hs.process pid p hp).1.single, ?_, ?_⟩
  · intro pid p w pid' p' w' hp hp' hw hw' htoken
    obtain ⟨uuid, hown⟩ := (hs.process pid p hp).1.tokens w hw
    obtain ⟨uuid', hown'⟩ := (hs.process pid' p' hp').1.tokens w' hw'
    obtain rfl := processToken_injective (hown.symm.trans (htoken.trans hown'))
    obtain rfl := Option.some.inj (hp.symm.trans hp')
    obtain ⟨index, hindex⟩ := List.getElem?_of_mem hw
    rw [((hs.process pid p hp).1.workers_eq hindex).2, List.mem_singleton] at hw'
    exact ⟨rfl, hw'.symm⟩
  · intro t ht t' ht' hsocket
    have howner := (hs.sent t ht).2
    rw [hsocket, (hs.sent t' ht').2] at howner
    exact (Option.some.inj howner).symm

/-- A program that forks between two datagrams of its worker. -/
def twoProcesses : List (Event Unit) :=
  [.look 10, .launch 10 "a3d1f0", .call 10 0 (), .acquire 10 0, .transmit 10 0, .release 10 0,
    .fork 10 11, .look 11, .launch 11 "77b2c9", .call 11 0 (), .acquire 11 0, .call 10 0 (),
    .acquire 10 0, .transmit 11 0, .transmit 10 0]

theorem fork_safe_twoProcesses :
    ∃ s, Run step Safe (start 10) twoProcesses s ∧
      (s.sent.map fun t => (t.process, t.token, t.socket)) =
        [(0, "10:a3d1f0", 0), (1, "11:77b2c9", 1), (0, "10:a3d1f0", 0)] ∧
      ∀ t ∈ s.sent, ∀ t' ∈ s.sent, t.socket = t'.socket → t.process = t'.process := by
  obtain ⟨s, hrun, hsent⟩ : ∃ s, Run step Safe (start 10) twoProcesses s ∧
      (s.sent.map fun t => (t.process, t.token, t.socket)) =
        [(0, "10:a3d1f0", 0), (1, "11:77b2c9", 1), (0, "10:a3d1f0", 0)] := by
    refine ⟨_, Run.cons ?_ rfl <| Run.cons trivial rfl <| Run.cons trivial rfl <|
      Run.cons trivial rfl <| Run.cons trivial rfl <| Run.cons trivial rfl <| Run.cons ?_ rfl <|
      Run.cons ?_ rfl <| Run.cons trivial rfl <| Run.cons trivial rfl <| Run.cons trivial rfl <|
      Run.cons trivial rfl <| Run.cons trivial rfl <| Run.cons trivial rfl <|
      Run.cons trivial rfl .nil, rfl⟩
    · intro p hp
      exact Option.some.inj hp ▸ rfl
    · intro p hp
      obtain rfl := Option.some.inj hp
      have hpid : (10 : ℕ) ≠ 11 := by decide
      exact ⟨hpid, fun _ h => hpid (Option.some.inj h)⟩
    · intro p hp
      exact Option.some.inj hp ▸ rfl
  exact ⟨s, hrun, hsent, (fork_safe hrun).2.2⟩

-- two threads that ask at the same time start two workers
example : ∃ s p, Run step (fun _ _ => True) (start 10)
      [.look 10, .look 10, .launch 10 "a3d1f0", .launch 10 "77b2c9"] s ∧
    s.alive 10 = some (p : Process Unit) ∧ p.workers.length = 2 :=
  ⟨_, _, Run.cons trivial rfl <| Run.cons trivial rfl <| Run.cons trivial rfl <|
    Run.cons trivial rfl .nil, rfl, rfl⟩

/-! ### What a fork can leave behind -/

/-- **What one process keeps**: a property of the process with a number that its own moves
keep, whatever the others do; and what it sends, it sends in one of these moves. -/
theorem step_of_number {P : ℕ → Process δ → Prop} {number : ℕ} {s s' : State δ} {event : Event δ}
    (hcounted : number < s.processes)
    (hprocess : ∀ pid p, s.alive pid = some p → p.number = number → P pid p)
    (hmoves : ∀ {pid p p' owners sent}, Moves s pid p event p' owners sent → P pid p → P pid p')
    (h : step s event = some s') :
    number < s'.processes ∧
      (∀ pid p, s'.alive pid = some p → p.number = number → P pid p) ∧
      ∀ t ∈ s'.sent, t.process = number → t ∈ s.sent ∨
        ∃ pid p p' owners, P pid p ∧ Moves s pid p event p' owners s'.sent := by
  obtain ⟨parent, child, p, rfl, hparent, hchild, rfl⟩ | ⟨pid, rfl, rfl⟩ |
    ⟨pid, p, p', owners, sent, hp, hmove, rfl⟩ := step_cases h
  · refine ⟨Nat.lt_succ_of_lt hcounted, fun pid q hq hnumber => ?_, fun t ht _ => Or.inl ht⟩
    by_cases hpid : pid = child
    · -- a child has a number of its own
      subst hpid
      obtain rfl : copy s.processes p = q := by simpa [setProcess] using hq
      exact absurd hnumber hcounted.ne'
    · exact hprocess pid q (by simpa [setProcess, hpid] using hq) hnumber
  · refine ⟨hcounted, fun pid' q hq => hprocess pid' q ?_, fun t ht _ => Or.inl ht⟩
    by_cases hpid : pid' = pid
    · simp [hpid] at hq
    · simpa [hpid] using hq
  · obtain ⟨hnumber, -, hsent⟩ := hmove.frame
    refine ⟨hcounted, fun pid' q hq hown => ?_, fun t ht hown => ?_⟩
    · by_cases hpid : pid' = pid
      · subst hpid
        obtain rfl : p' = q := by simpa [setProcess] using hq
        exact hmoves hmove (hprocess pid' p hp (hnumber ▸ hown))
      · exact hprocess pid' q (by simpa [setProcess, hpid] using hq) hown
    · refine (hsent t ht).imp_right fun hprocess' => ?_
      exact ⟨pid, p, p', owners, hprocess pid p hp (hprocess' ▸ hown), hmove⟩

/-- The sender for a destination is locked in a process, and nobody is there to unlock it. -/
def Process.Jammed (destination : δ) (p : Process δ) : Prop :=
  (p.senders destination).locked = true ∧
    ∀ w ∈ p.workers, w.phase.holds ≠ some destination

/-- A process with a locked sender, which has sent nothing. -/
structure Jammed (number : ℕ) (destination : δ) (s : State δ) : Prop where
  counted : number < s.processes
  process : ∀ pid p, s.alive pid = some p → p.number = number → p.Jammed destination
  sent : ∀ t ∈ s.sent, t.process = number → t.destination ≠ destination

theorem Process.Jammed.act {destination destination' : δ} {p : Process δ}
    (h : p.Jammed destination) (hother : destination' ≠ destination) {index : ℕ} {w : Worker δ}
    {phase : Phase δ} {sender : UDPSender} (hphase : phase.holds ≠ some destination) :
    (setPhase index w phase (setSender destination' sender p)).Jammed destination := by
  refine ⟨?_, fun w' hw' => ?_⟩
  · simpa [setPhase, setSender, Function.update_of_ne hother.symm] using h.1
  · obtain hw' | rfl := List.mem_or_eq_of_mem_set hw'
    · exact h.2 w' hw'
    · exact hphase

theorem Moves.jammed {s : State δ} {pid : ℕ} {p p' : Process δ} {event : Event δ}
    {owners' : List ℕ} {sent' : List (Transmission δ)} {destination : δ}
    (h : Moves s pid p event p' owners' sent') (hjammed : p.Jammed destination) :
    p'.Jammed destination ∧
      ∀ t ∈ sent', t ∈ s.sent ∨ t.destination ≠ destination := by
  cases h with
  | look =>
      refine ⟨?_, fun t ht => Or.inl ht⟩
      unfold lookForWorker
      split <;> exact hjammed
  | launch uuid hchecking =>
      refine ⟨⟨hjammed.1, fun w hw => ?_⟩, fun t ht => Or.inl ht⟩
      obtain hw | hw := List.mem_append.mp hw
      · exact hjammed.2 w hw
      · obtain rfl := List.mem_singleton.mp hw
        simp [Phase.holds]
  | call destination' hw houtside =>
      refine ⟨⟨hjammed.1, fun w hw => ?_⟩, fun t ht => Or.inl ht⟩
      obtain hw | rfl := List.mem_or_eq_of_mem_set hw
      · exact hjammed.2 w hw
      · simp [Phase.holds]
  | @acquire index w destination' hw hwaiting hfree =>
      have hother : destination' ≠ destination := by
        rintro rfl
        exact absurd hjammed.1 (by simp [hfree])
      exact ⟨hjammed.act hother (by simpa [Phase.holds] using hother), fun t ht => Or.inl ht⟩
  | @transmit index w destination' hw hentered socket sender hconnect =>
      have hother : destination' ≠ destination := by
        simpa [hentered, Phase.holds] using hjammed.2 w (List.mem_of_getElem? hw)
      refine ⟨hjammed.act hother (by simpa [Phase.holds] using hother), fun t ht => ?_⟩
      obtain ht | ht := List.mem_append.mp ht
      · exact Or.inl ht
      · obtain rfl := List.mem_singleton.mp ht
        exact Or.inr hother
  | @refuse index w destination' hw hentered =>
      have hother : destination' ≠ destination := by
        simpa [hentered, Phase.holds] using hjammed.2 w (List.mem_of_getElem? hw)
      exact ⟨hjammed.act hother (by simpa [Phase.holds] using hother), fun t ht => Or.inl ht⟩
  | @release index w destination' hw hleft =>
      have hother : destination' ≠ destination := by
        simpa [hleft, Phase.holds] using hjammed.2 w (List.mem_of_getElem? hw)
      exact ⟨hjammed.act hother (by simp [Phase.holds]), fun t ht => Or.inl ht⟩
  | stop hw houtside =>
      exact ⟨⟨hjammed.1, fun w hw => hjammed.2 w (List.mem_of_mem_eraseIdx hw)⟩,
        fun t ht => Or.inl ht⟩

theorem Jammed.step {number : ℕ} {destination : δ} {s s' : State δ} {event : Event δ}
    (hs : Jammed number destination s) (h : step s event = some s') :
    Jammed number destination s' := by
  obtain ⟨hcounted, hprocess, hsent⟩ := step_of_number
    (P := fun _ p => p.Jammed destination) hs.counted hs.process
    (fun hmove hjammed => (hmove.jammed hjammed).1) h
  refine ⟨hcounted, hprocess, fun t ht hown => ?_⟩
  obtain hbefore | ⟨pid, p, p', owners, hjammed, hmove⟩ := hsent t ht hown
  · exact hs.sent t hbefore hown
  · obtain hbefore | hother := (hmove.jammed hjammed).2 t ht
    · exact hs.sent t hbefore hown
    · exact hother

/-! ### Waiting for ever -/

/-- The worker waits for a sender that nobody will unlock, and there will be no other one. -/
structure Process.Waits (destination : δ) (pid : ℕ) (p : Process δ) : Prop where
  locked : (p.senders destination).locked = true
  worker : ∃ w, p.workers = [w] ∧ w.phase = .waiting destination
  idle : p.checking = 0
  started : p.workerThread = true ∧ p.recorded = pid

omit [DecidableEq δ] in
theorem Process.Waits.phase_eq {destination : δ} {pid : ℕ} {p : Process δ}
    (h : p.Waits destination pid) {index : ℕ} {w : Worker δ} (hw : p.workers[index]? = some w) :
    w.phase = .waiting destination := by
  obtain ⟨w', hworkers, hwaiting⟩ := h.worker
  have hmem : w ∈ p.workers := List.mem_of_getElem? hw
  rw [hworkers, List.mem_singleton] at hmem
  exact hmem ▸ hwaiting

/-- **Such a process does nothing any more.** -/
theorem Moves.eq_of_waits {s : State δ} {pid : ℕ} {p p' : Process δ} {event : Event δ}
    {owners' : List ℕ} {sent' : List (Transmission δ)} {destination : δ}
    (h : Moves s pid p event p' owners' sent') (hwaits : p.Waits destination pid) :
    p' = p ∧ sent' = s.sent := by
  cases h with
  | look =>
      refine ⟨if_neg fun hwanted => ?_, rfl⟩
      obtain hnone | hother := hwanted
      · exact absurd hwaits.started.1 (by simp [hnone])
      · exact hother hwaits.started.2
  | launch uuid hchecking => exact absurd hwaits.idle hchecking
  | acquire hw hwaiting hfree =>
      obtain rfl := Phase.waiting.inj (hwaiting.symm.trans (hwaits.phase_eq hw))
      exact absurd hwaits.locked (by simp [hfree])
  | call _ hw hphase | transmit hw hphase _ | refuse hw hphase | release hw hphase
  | stop hw hphase =>
      cases hphase.symm.trans (hwaits.phase_eq hw)

/-- A process that sends nothing any more: what it has sent is in `sent`, and its worker waits. -/
structure Silent (number : ℕ) (destination : δ) (sent : List (Transmission δ)) (s : State δ) :
    Prop where
  counted : number < s.processes
  process : ∀ pid p, s.alive pid = some p → p.number = number → p.Waits destination pid
  sent : ∀ t ∈ s.sent, t.process = number → t ∈ sent

theorem Silent.step {number : ℕ} {destination : δ} {sent : List (Transmission δ)} {s s' : State δ}
    {event : Event δ} (hs : Silent number destination sent s) (h : step s event = some s') :
    Silent number destination sent s' := by
  obtain ⟨hcounted, hprocess, hsent⟩ := step_of_number
    (P := fun pid p => p.Waits destination pid) hs.counted hs.process
    (fun hmove hwaits => (hmove.eq_of_waits hwaits).1 ▸ hwaits) h
  refine ⟨hcounted, hprocess, fun t ht hown => ?_⟩
  obtain hbefore | ⟨pid, p, p', owners, hwaits, hmove⟩ := hsent t ht hown
  · exact hs.sent t hbefore hown
  · exact hs.sent t ((hmove.eq_of_waits hwaits).2 ▸ ht) hown

omit [DecidableEq δ] in
/-- A worker that waits for a locked sender silences its process. -/
theorem silent_of_waiting {s : State δ} (hs : Sound s) {pid : ℕ} {p : Process δ}
    (hp : s.alive pid = some p) {w : Worker δ} (hw : w ∈ p.workers) {destination : δ}
    (hwaiting : w.phase = .waiting destination) (hlocked : (p.senders destination).locked = true) :
    Silent p.number destination s.sent s := by
  obtain ⟨hsound, hlt⟩ := hs.process pid p hp
  obtain ⟨index, hindex⟩ := List.getElem?_of_mem hw
  refine ⟨hlt, fun pid' q hq hnumber => ?_, fun t ht _ => ht⟩
  obtain rfl := hs.numbers pid' q pid p hq hp hnumber
  obtain rfl := Option.some.inj (hp.symm.trans hq)
  refine ⟨hlocked, ⟨w, (hsound.workers_eq hindex).2, hwaiting⟩, ?_,
    hsound.recorded (List.ne_nil_of_mem hw)⟩
  by_contra hchecking
  rw [hsound.wanted hchecking] at hw
  cases hw

/-! ### Reports after a fork -/

theorem step_fork {s s' : State δ} {parent child : ℕ} {p : Process δ}
    (hp : s.alive parent = some p) (h : step s (.fork parent child) = some s') :
    s' = { setProcess child (copy s.processes p) s with processes := s.processes + 1 } := by
  simp only [step, hp] at h
  split at h
  · rename_i hparent hchild
    cases hparent
    exact (Option.some.inj h).symm
  · cases h

/-- A child of a process with a locked sender. -/
theorem jammed_fork {s s' : State δ} (hs : Sound s) {parent child : ℕ} {p : Process δ}
    (hp : s.alive parent = some p) (hfork : step s (.fork parent child) = some s')
    {destination : δ} (hlocked : (p.senders destination).locked = true) :
    Jammed s.processes destination s' := by
  obtain rfl := step_fork hp hfork
  refine ⟨Nat.lt_succ_self _, fun pid q hq hnumber => ?_, fun t ht hprocess => ?_⟩
  · by_cases hpid : pid = child
    · obtain rfl : copy s.processes p = q := by simpa [setProcess, hpid] using hq
      exact ⟨hlocked, by simp [copy]⟩
    · have hq : s.alive pid = some q := by simpa [setProcess, hpid] using hq
      exact absurd hnumber (hs.process pid q hq).2.ne
  · exact absurd hprocess (hs.sent t ht).1.ne

omit [DecidableEq δ] in
theorem worker?_setProcess {s : State δ} {pid index : ℕ} {p : Process δ} :
    worker? (setProcess pid p s) pid index = p.workers[index]?.map fun w => (p, w) := by
  simp [worker?, setProcess]

theorem step_call {s : State δ} {pid index : ℕ} {p : Process δ} {w : Worker δ}
    (hworker : worker? s pid index = some (p, w)) (houtside : w.phase = .outside)
    (destination : δ) :
    step s (.call pid index destination) =
      some (setProcess pid (setPhase index w (.waiting destination) p) s) := by
  simp only [step, hworker]
  exact if_pos houtside

theorem step_acquire {s : State δ} {pid index : ℕ} {p : Process δ} {w : Worker δ}
    {destination : δ} (hworker : worker? s pid index = some (p, w))
    (hwaiting : w.phase = .waiting destination) (hfree : (p.senders destination).locked = false) :
    step s (.acquire pid index) =
      some (setProcess pid (setPhase index w (.entered destination)
        (setSender destination { p.senders destination with locked := true } p)) s) := by
  simp only [step, hworker, hwaiting]
  exact if_pos hfree

theorem exists_step_transmit {s : State δ} {pid index : ℕ} {p : Process δ} {w : Worker δ}
    {destination : δ} (hworker : worker? s pid index = some (p, w))
    (hentered : w.phase = .entered destination) :
    ∃ s', step s (.transmit pid index) = some s' ∧
      ∃ t ∈ s'.sent, t.process = p.number ∧ t.destination = destination := by
  simp only [step, hworker, hentered]
  exact ⟨_, rfl, _, List.mem_append_right _ (List.mem_singleton_self _), rfl, rfl⟩

/-- A process without a worker of its own gets one that reports. -/
theorem reports_of_unlocked {s : State δ} {pid : ℕ} {p : Process δ} (hp : s.alive pid = some p)
    (hworkers : p.workers = []) (hchecking : p.checking = 0) (hrecorded : p.recorded ≠ pid)
    {destination : δ} (hfree : (p.senders destination).locked = false) :
    ∃ more s', Run step Safe s more s' ∧
      ∃ t ∈ s'.sent, t.process = p.number ∧ t.destination = destination := by
  let w : Worker δ := { token := processToken pid "" }
  let looking : Process δ := { p with checking := 1 }
  let started : Process δ := launchWorker pid "" looking
  let waiting : Process δ := setPhase 0 w (.waiting destination) started
  let entered : Process δ := setPhase 0 { w with phase := .waiting destination }
    (.entered destination)
    (setSender destination { waiting.senders destination with locked := true } waiting)
  have hlook : step s (.look pid) = some (setProcess pid looking s) := by
    simp [step, hp, lookForWorker, hrecorded, hchecking, looking]
  have hlaunch : step (setProcess pid looking s) (.launch pid "") =
      some (setProcess pid started (setProcess pid looking s)) := by
    simp [step, setProcess, looking, started]
  have hstarted : started.workers = [w] := by
    simp [started, launchWorker, looking, hworkers, w]
  have hwaiting : waiting.workers = [{ w with phase := .waiting destination }] := by
    simp [waiting, setPhase, hstarted]
  have hentered : entered.workers = [{ w with phase := .entered destination }] := by
    simp [entered, setPhase, setSender, hwaiting]
  have hworker : ∀ {q : Process δ} {v : Worker δ} {s : State δ}, q.workers = [v] →
      worker? (setProcess pid q s) pid 0 = some (q, v) := by
    intro q v s hq
    rw [worker?_setProcess, hq]
    rfl
  have hcall := step_call (hworker (s := setProcess pid looking s) hstarted) rfl destination
  have hacquire := step_acquire
    (hworker (s := setProcess pid started (setProcess pid looking s)) hwaiting) rfl hfree
  obtain ⟨s', htransmit, hsent⟩ := exists_step_transmit (hworker
    (s := setProcess pid waiting (setProcess pid started (setProcess pid looking s))) hentered) rfl
  refine ⟨_, s', Run.cons ?_ hlook <| Run.cons trivial hlaunch <| Run.cons trivial hcall <|
    Run.cons trivial hacquire <| Run.cons trivial htransmit .nil, hsent⟩
  intro q hq
  exact Option.some.inj (hp.symm.trans hq) ▸ hchecking

/-- **After a fork**, the child can report to a destination if and only if the sender for
it was not locked at that moment; and once its worker is in `send` of a sender that was, it
reports nowhere any more. In the process that the program started as, a sender is locked
while a worker is in `send`. -/
theorem reports_after_fork_iff {pid₀ : ℕ} {events : List (Event δ)} {s s' : State δ}
    (h : Run step Safe (start pid₀) events s) {parent child : ℕ} {p : Process δ}
    (hp : s.alive parent = some p) (hsafe : Safe s (.fork parent child))
    (hfork : step s (.fork parent child) = some s') (destination : δ) :
    ((∃ more s'', Run step Safe s' more s'' ∧
        ∃ t ∈ s''.sent, t.process = s.processes ∧ t.destination = destination) ↔
      (p.senders destination).locked = false) ∧
      ((p.senders destination).locked = true →
        ∀ more s'', Run step Safe s' more s'' → ∀ pid q, s''.alive pid = some q →
          q.number = s.processes → (∃ w ∈ q.workers, w.phase = .waiting destination) →
            ∀ later s₂, Run step Safe s'' later s₂ →
              ∀ t ∈ s₂.sent, t.process = s.processes → t ∈ s''.sent) ∧
      (p.number = 0 → ((p.senders destination).locked = true ↔
        ∃ w ∈ p.workers, w.phase.holds = some destination)) := by
  have hs := sound_run h
  have hsound := (hs.process parent p hp).1
  -- the sender stays locked in the child
  have hjammed : (p.senders destination).locked = true → ∀ more s'', Run step Safe s' more s'' →
      Jammed s.processes destination s'' := fun hlocked more s'' hmore =>
    hmore.invariant (P := fun _ s'' => Jammed s.processes destination s'')
      (jammed_fork hs hp hfork hlocked) fun hs _ hstep => hs.step hstep
  refine ⟨⟨?_, fun hfree => ?_⟩, fun hlocked more s'' hmore pid q hq hnumber => ?_,
    fun hnumber => ⟨hsound.locked hnumber destination, ?_⟩⟩
  · rintro ⟨more, s'', hmore, t, ht, hprocess, hdestination⟩
    by_contra hlocked
    exact (hjammed (by simpa using hlocked) more s'' hmore).sent t ht hprocess hdestination
  · obtain rfl := step_fork hp hfork
    exact reports_of_unlocked (p := copy s.processes p) (by simp [setProcess]) rfl rfl
      (hsafe p hp).1 hfree
  · rintro ⟨w, hw, hwaiting⟩ later s₂ hlater t ht hprocess
    have hsound'' : Sound s'' := sound_run ((h.snoc hsafe hfork).append hmore)
    have hlocked'' := ((hjammed hlocked more s'' hmore).process pid q hq hnumber).1
    have hsilent : Silent s.processes destination s''.sent s₂ :=
      hlater.invariant (P := fun _ s₂ => Silent s.processes destination s''.sent s₂)
        (hnumber ▸ silent_of_waiting hsound'' hq hw hwaiting hlocked'')
        fun hs _ hstep => hs.step hstep
    exact hsilent.sent t ht hprocess
  · rintro ⟨w, hw, hheld⟩
    exact hsound.holds w hw destination hheld

/-- The worker is in `send` for one of two destinations when the program forks: the child
never reports to it, and can report to the other. -/
theorem reports_after_fork_iff_inSend :
    ∃ s s', Run step Safe (start 10)
        [.look 10, .launch 10 "a3d1f0", .call 10 0 true, .acquire 10 0] s ∧
      step s (.fork 10 11) = some s' ∧
      (¬∃ more s'', Run step Safe s' more s'' ∧
        ∃ t ∈ s''.sent, t.process = 1 ∧ t.destination = true) ∧
      ∃ more s'', Run step Safe s' more s'' ∧
        ∃ t ∈ s''.sent, t.process = 1 ∧ t.destination = false := by
  obtain ⟨s, p, hrun, hp, hprocesses, hchild, hrecorded, hpid, hlocked, hfree⟩ : ∃ s p,
      Run step Safe (start 10) [.look 10, .launch 10 "a3d1f0", .call 10 0 true, .acquire 10 0] s ∧
        s.alive 10 = some p ∧ s.processes = 1 ∧ s.alive 11 = none ∧ p.recorded = 10 ∧
        (∀ destination, (p.senders destination).pid = none) ∧
        (p.senders true).locked = true ∧ (p.senders false).locked = false := by
    refine ⟨_, _, Run.cons ?_ rfl <| Run.cons trivial rfl <| Run.cons trivial rfl <|
      Run.cons trivial rfl .nil, rfl, rfl, rfl, rfl, ?_, rfl, rfl⟩
    · intro p hp
      exact Option.some.inj hp ▸ rfl
    · intro destination
      cases destination <;> rfl
  have hsafe : Safe s (.fork 10 11) := by
    intro p' hp'
    obtain rfl := Option.some.inj (hp.symm.trans hp')
    exact ⟨by simp [hrecorded], fun _ => by simp [hpid]⟩
  have hfork : step s (.fork 10 11) =
      some { setProcess 11 (copy s.processes p) s with processes := s.processes + 1 } := by
    simp only [step, hp, hchild]
  refine ⟨s, _, hrun, hfork, fun hreports => ?_, ?_⟩
  · have hunlocked := (reports_after_fork_iff hrun hp hsafe hfork true).1.mp
      (hprocesses ▸ hreports)
    exact absurd hlocked (by simp [hunlocked])
  · exact hprocesses ▸ (reports_after_fork_iff hrun hp hsafe hfork false).1.mpr hfree

end SqlalchemyCollectd.Fork
