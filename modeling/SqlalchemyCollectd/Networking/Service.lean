import SqlalchemyCollectd.Lib.Mailbox
import SqlalchemyCollectd.Protocol.RoundTrip

/-!
# SqlalchemyCollectd.Networking.Service

The services that receive datagrams: the listener of the server plugin and the monitor.

Both have a datagram protocol that puts what arrives into a queue, and a loop that
takes one datagram at a time, unpacks it and hands over the message, if there is one. An
exception is logged and the loop goes on. So a datagram is handled as a whole (`handle`)
and what it does is what its message does (`messageOf`); the loop never gets past one whose
part loop does not end. The packer makes no such datagram (`not_stalls_of_packValues`).
-/

namespace SqlalchemyCollectd

open Struct

namespace Service

/-- What is in the queue of a receiver protocol: a datagram, or the `None` that
`connection_lost` puts there. -/
abbrev Item := Option Bytes

/-- What `receive_async` raises. -/
inductive ReceiveError
  /-- `IOError("closed")` of `recvfrom`. -/
  | closed
  /-- An exception of `unpack_bytes`. -/
  | unpack (e : PyError)
  deriving DecidableEq

/-- `AsyncNetworkReceiver.receive_async` for the item that `recvfrom` takes from the
queue; the outer `none` is a call that never returns. -/
def receiveAsync (types : List CollectdType) :
    Item → Option (Except ReceiveError (Option (Message Number)))
  | none => some (.error .closed)
  | some buf => (unpackBytes types buf).map (Except.mapError ReceiveError.unpack)

/-- The message that an item brings, if it brings one. -/
def messageOf (types : List CollectdType) (item : Item) : Option (Message Number) :=
  match receiveAsync types item with
  | some (.ok message) => message
  | some (.error _) | none => none

variable {σ ω : Type}

/-- One round of the loop, `onMessage` being what the service does with a message. The
exceptions of `receive_async` are logged. -/
def handle (types : List CollectdType) (onMessage : σ → Message Number → σ) (s : σ) (item : Item) :
    Option σ :=
  match receiveAsync types item with
  | some (.ok (some m)) => some (onMessage s m)
  | some (.ok none) => some s
  | some (.error _) => some s
  | none => none

/-- What is left of an entry of a log when only the messages count. -/
def logged (types : List CollectdType) : Item ⊕ ω → Option (Message Number ⊕ ω)
  | .inl item => (messageOf types item).map Sum.inl
  | .inr action => some (.inr action)

/-- What is left of a log. -/
def entries (types : List CollectdType) (log : List (Item ⊕ ω)) : List (Message Number ⊕ ω) :=
  log.filterMap (logged types)

/-! ### One datagram -/

/-- The unpacker is caught in a datagram exactly when its part loop is. -/
theorem unpackBytes_eq_none_iff {types : List CollectdType} {buf : Bytes} :
    unpackBytes types buf = none ↔ Stalls buf := by
  rw [unpackBytes, Option.map_eq_none_iff]
  constructor
  · intro hnone
    by_contra hfree
    have hsome := isSome_of_not_stalls buf.length {} (Nat.le_add_left ..) hfree
    rw [unpackPacket] at hnone
    rw [hnone] at hsome
    cases hsome
  · intro hstall
    exact not_isSome_of_stalls hstall buf.length {} rfl

theorem receiveAsync_eq_none_iff {types : List CollectdType} {item : Item} :
    receiveAsync types item = none ↔ ∃ buf, item = some buf ∧ Stalls buf := by
  cases item with
  | none => simp [receiveAsync]
  | some buf => simp [receiveAsync, unpackBytes_eq_none_iff]

/-- The message of an item was unpacked from its bytes. -/
theorem messageOf_eq_some_iff {types : List CollectdType} {item : Item} {m : Message Number} :
    messageOf types item = some m ↔
      ∃ buf, item = some buf ∧ unpackBytes types buf = some (.ok (some m)) := by
  cases item with
  | none => simp [messageOf, receiveAsync]
  | some buf =>
      simp only [messageOf, receiveAsync, Option.some.injEq, exists_eq_left']
      cases unpackBytes types buf with
      | none => simp
      | some result =>
          cases result with
          | error e => simp [Except.mapError]
          | ok message => simp [Except.mapError]

/-! ### What the packer makes -/

theorem partLength?_header {code length : ℕ} (hcode : code < 2 ^ 16) (hlength : length < 2 ^ 16)
    {body : Bytes} {n : ℕ} (h : partLength? (WirePart.header code length ++ body) = some n) :
    n = length := by
  obtain ⟨store, hhead⟩ := partLength?_eq_some_iff.mp h
  obtain ⟨⟨code', length'⟩, hheader, hhead⟩ := bind_eq_ok hhead
  rw [WirePart.unpackHeader_header hcode hlength] at hheader
  obtain ⟨rfl, rfl⟩ := Prod.mk.inj (Except.ok.inj hheader)
  dsimp only at hhead
  split at hhead
  · obtain ⟨store', -, hhead⟩ := bind_eq_ok hhead
    exact (congrArg Prod.fst (Except.ok.inj hhead)).symm
  · exact (congrArg Prod.fst (Except.ok.inj hhead)).symm

theorem not_stalls_nil : ¬Stalls [] := by
  have hshort : partLength? [] = none := rfl
  intro h
  cases h with
  | here hzero => cases hshort.symm.trans hzero
  | later hsome _ _ => cases hshort.symm.trans hsome

/-- The loop gets past a well-formed part. -/
theorem stalls_of_append {p : WirePart} {rest : Bytes} (h : Stalls (p.bytes ++ rest)) :
    Stalls rest := by
  have hlength : partLength? (p.bytes ++ rest) = some p.bytes.length := by
    rw [partLength?, WirePart.unpackHead_bytes]
  cases h with
  | here hzero =>
      have := p.length_bytes_pos
      rw [hlength, Option.some.injEq] at hzero
      omega
  | later hsome _ hrest =>
      rw [hlength] at hsome
      cases hsome
      rwa [List.drop_left] at hrest

/-- It also gets past a last part that is shorter than it says. -/
theorem not_stalls_last {code length : ℕ} {body : Bytes} (hcode : code < 2 ^ 16)
    (hlength : length < 2 ^ 16) (hshort : 4 + body.length ≤ length) :
    ¬Stalls (WirePart.header code length ++ body) := by
  intro h
  cases h with
  | here hzero =>
      have := partLength?_header hcode hlength hzero
      omega
  | later hsome _ hrest =>
      have hn := partLength?_header hcode hlength hsome
      rw [List.drop_eq_nil_of_le (by simp; omega)] at hrest
      exact not_stalls_nil hrest

theorem length_packFields {ts : List ValueType} {xs : List Number} {bs : Bytes}
    (h : packFields ts xs = .ok bs) : bs.length ≤ 8 * ts.length := by
  induction ts generalizing xs bs with
  | nil =>
      cases h
      exact Nat.zero_le _
  | cons t ts ih =>
      cases xs with
      | nil =>
          cases h
          exact Nat.zero_le _
      | cons x xs =>
          obtain ⟨body, hbody, h⟩ := bind_eq_ok h
          obtain ⟨rest, hrest, h⟩ := bind_eq_ok h
          cases h
          have hlength := (packFormat_eq_ok hbody).1
          have hlengths := ih hrest
          rw [List.length_append, List.length_cons]
          omega

/-- **What the packer makes does not keep the unpacker**, even with too few values. -/
theorem not_stalls_of_packValues {types : List CollectdType} {v : Values Number} {bytes : Bytes}
    (h : packValues types v = .ok bytes) : ¬Stalls bytes := by
  obtain ⟨t, -, h⟩ := bind_eq_ok h
  obtain ⟨_, hhost, h⟩ := bind_eq_ok h
  obtain ⟨_, hplugin, h⟩ := bind_eq_ok h
  obtain ⟨_, hpluginInstance, h⟩ := bind_eq_ok h
  obtain ⟨_, htypePart, h⟩ := bind_eq_ok h
  obtain ⟨_, hinterval, h⟩ := bind_eq_ok h
  obtain ⟨_, htypeInstance, h⟩ := bind_eq_ok h
  obtain ⟨timestamp, -, h⟩ := bind_eq_ok h
  obtain ⟨_, htime, h⟩ := bind_eq_ok h
  obtain ⟨payload, hpayload, h⟩ := bind_eq_ok h
  obtain ⟨p₁, rfl, -⟩ := packString_eq_bytes rfl hhost
  obtain ⟨p₂, rfl, -⟩ := packLong_eq_bytes rfl htime
  obtain ⟨p₃, rfl, -⟩ := packString_eq_bytes rfl hplugin
  obtain ⟨p₄, rfl, -⟩ := packString_eq_bytes rfl hpluginInstance
  obtain ⟨p₅, rfl, -⟩ := packString_eq_bytes rfl htypePart
  obtain ⟨p₆, rfl, -⟩ := packLong_eq_bytes rfl hinterval
  obtain ⟨p₇, rfl, -⟩ := packString_eq_bytes rfl htypeInstance
  have hlast : ¬Stalls payload := by
    obtain ⟨fields, hfields, hpayload⟩ := bind_eq_ok hpayload
    have hlength := length_packFields hfields
    rw [← Except.ok.inj hpayload, CollectdType.messageTemplate, List.append_assoc,
      List.append_assoc]
    refine not_stalls_last (by decide) t.fits ?_
    simp only [List.length_append, length_beBytes, List.length_map, t.length_types] at hlength ⊢
    omega
  intro hstalls
  rw [← Except.ok.inj h] at hstalls
  simp only [List.append_assoc] at hstalls
  -- the seven parts before the values are well formed
  iterate 7 replace hstalls := stalls_of_append hstalls
  exact hlast hstalls

variable {types : List CollectdType} {onMessage : σ → Message Number → σ} {act : σ → ω → σ}

theorem handle_eq_none_iff {s : σ} {item : Item} :
    handle types onMessage s item = none ↔ ∃ buf, item = some buf ∧ Stalls buf := by
  rw [← @receiveAsync_eq_none_iff types, handle]
  split <;> simp_all

/-- A datagram does what its message does. -/
theorem handle_getD (s : σ) (item : Item) :
    (handle types onMessage s item).getD s =
      ((messageOf types item).map (onMessage s)).getD s := by
  unfold handle messageOf
  cases receiveAsync types item with
  | none => rfl
  | some result =>
      cases result with
      | error e => rfl
      | ok message => cases message <;> rfl

/-- So does a log. -/
theorem foldl_effect (log : List (Item ⊕ ω)) (s : σ) :
    log.foldl (Mailbox.effect (handle types onMessage) act) s =
      (entries types log).foldl (fun s => Sum.elim (onMessage s) (act s)) s := by
  induction log generalizing s with
  | nil => rfl
  | cons entry log ih =>
      rw [List.foldl_cons, ih, entries, entries, List.filterMap_cons]
      cases entry with
      | inl item =>
          rw [Mailbox.effect, handle_getD, logged]
          cases messageOf types item with
          | none => rfl
          | some m => rfl
      | inr action => rfl

theorem items_entries (log : List (Item ⊕ ω)) :
    Mailbox.items (entries types log) = (Mailbox.items log).filterMap (messageOf types) := by
  unfold Mailbox.items entries
  rw [List.filterMap_filterMap, List.filterMap_filterMap]
  refine List.filterMap_congr fun entry _ => ?_
  cases entry with
  | inl item => cases h : messageOf types item <;> simp [logged, h]
  | inr action => rfl

theorem others_entries (log : List (Item ⊕ ω)) :
    Mailbox.others (entries types log) = Mailbox.others log := by
  unfold Mailbox.others entries
  rw [List.filterMap_filterMap]
  refine List.filterMap_congr fun entry _ => ?_
  cases entry with
  | inl item => cases h : messageOf types item <;> simp [logged, h]
  | inr action => rfl

theorem caught_iff {start : σ} {log : List (Item ⊕ ω)} :
    Mailbox.Caught (handle types onMessage) act start log ↔
      ∃ buf, some buf ∈ Mailbox.items log ∧ Stalls buf := by
  unfold Mailbox.Caught Mailbox.items
  simp only [handle_eq_none_iff, List.mem_filterMap, Sum.exists, Sum.getLeft?_inl,
    Option.some.injEq, Sum.getLeft?_inr, reduceCtorEq, and_false, exists_false, or_false,
    exists_eq_right]
  constructor
  · intro ⟨before, item, after, hsplit, buf, hitem, hstall⟩
    exact ⟨buf, by simp [hsplit, hitem], hstall⟩
  · intro ⟨buf, hmem, hstall⟩
    obtain ⟨before, after, hsplit⟩ := List.append_of_mem hmem
    exact ⟨before, some buf, after, hsplit, buf, rfl, hstall⟩

/-! ### Runs -/

/-- What a run of the service comes to: the datagrams that were served brought the
messages of the sequence, in the order of their arrival. -/
structure Comes (types : List CollectdType) (onMessage : σ → Message Number → σ)
    (act : σ → ω → σ) (start : σ) (events : List (Mailbox.Event Item ω))
    (s : Mailbox.State σ Item) (served : List Item) (sequence : List (Message Number ⊕ ω)) :
    Prop where
  arrivals : Mailbox.arrivals events = served ++ s.queue
  messages : Mailbox.items sequence = served.filterMap (messageOf types)
  actions : Mailbox.others sequence = Mailbox.actions events
  state : s.state = sequence.foldl (fun s => Sum.elim (onMessage s) (act s)) start
  stuck : s.status = .stuck ↔ ∃ buf, some buf ∈ served ∧ Stalls buf

/-- **Every run of a service is a sequential run** of the messages that it has served. -/
theorem exists_comes {ok : Mailbox.State σ Item → Mailbox.Event Item ω → Prop} {start : σ}
    {events : List (Mailbox.Event Item ω)} {s : Mailbox.State σ Item}
    (h : Transition.Run (Mailbox.step (handle types onMessage) act) ok { state := start }
      events s) :
    ∃ served sequence, Comes types onMessage act start events s served sequence := by
  obtain ⟨log, hlog⟩ := Mailbox.exists_log h
  exact ⟨Mailbox.items log, entries types log, hlog.arrivals, items_entries log,
    (others_entries log).trans hlog.actions.symm, hlog.state.trans (foldl_effect log start),
    hlog.stuck.trans caught_iff⟩

/-- **A service catches up**: while none of the waiting datagrams stalls, it can serve them
all, and ends up as if it had served them one after the other. -/
theorem exists_drain {s : Mailbox.State σ Item} (hrunning : s.status = .running)
    (hfree : ∀ buf, some buf ∈ s.queue → ¬Stalls buf) :
    ∃ state, Transition.Run (Mailbox.step (handle types onMessage) act) (fun _ _ => True) s
        (List.replicate s.queue.length .take) { s with queue := [], state } ∧
      state = (s.queue.filterMap (messageOf types)).foldl onMessage s.state := by
  -- only a datagram that stalls is not finished with
  have hfinish : ∀ item ∈ s.queue, ∀ state, handle types onMessage state item ≠ none := by
    intro item hitem state hnone
    obtain ⟨buf, rfl, hstall⟩ := handle_eq_none_iff.mp hnone
    exact hfree buf hitem hstall
  obtain ⟨state, hrun, hstate⟩ : ∃ state, Transition.Run
        (Mailbox.step (handle types onMessage) act) (fun _ _ => True) s
        (List.replicate s.queue.length .take) { s with queue := [], state } ∧
      state = (s.queue.map Sum.inl).foldl (Mailbox.effect (handle types onMessage) act) s.state :=
    Mailbox.exists_drain hrunning hfinish
  refine ⟨state, hrun, ?_⟩
  rw [hstate, foldl_effect, entries, List.filterMap_map]
  generalize s.state = state
  induction s.queue generalizing state with
  | nil => rfl
  | cons item queue ih =>
      rw [List.filterMap_cons, List.filterMap_cons, Function.comp_apply, logged]
      cases messageOf types item with
      | none => exact ih state
      | some m => exact ih (onMessage state m)

end Service

end SqlalchemyCollectd
