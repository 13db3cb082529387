import SqlalchemyCollectd.Client.Plugin
import SqlalchemyCollectd.Connmon.Relay
import SqlalchemyCollectd.Server.Receiver

/-!
# SqlalchemyCollectd.Client.Reports

What a process tells the server: a call of `Sender.send`, as datagrams.

The types of the packer are those that the functions of the sender were registered with.
A report whose strings and numbers fit is sent as a whole, and the server unpacks from
each datagram a message with the key of the process and the counts of its
`CollectionTarget` (`unpackBytes_datagram`).
-/

namespace SqlalchemyCollectd

open Struct

/-! ### What can be packed -/

theorem packValues_congr {types types' : List CollectdType} {v : Values Number}
    (h : typeObject types v.type = typeObject types' v.type) :
    packValues types v = packValues types' v := by
  unfold packValues
  rw [h]

theorem encodeValues_ok {t : CollectdType} {xs : List Number} (h : List.Forall₂ FitsField t.types xs) :
    ∃ bs, t.encodeValues xs = .ok bs := by
  have hfields : ∀ {ts : List ValueType} {xs : List Number}, List.Forall₂ FitsField ts xs →
      ∃ bs, packFields ts xs = .ok bs := by
    intro ts xs h
    induction h with
    | nil => exact ⟨_, rfl⟩
    | cons hx _ ih =>
        exact exists_bind_ok (packFormat_ok hx) fun field _ =>
          exists_bind_ok ih fun rest _ => ⟨_, rfl⟩
  exact exists_bind_ok (hfields h) fun fields _ => ⟨_, rfl⟩

/-- **What fits can be packed.** -/
theorem packValues_ok {types : List CollectdType} {v : Values Number} {t : CollectdType} {q : ℚ}
    (htype : typeObject types v.type = .ok t) (hname : Encodable t.name)
    (hhost : Encodable (v.host.getD "")) (hplugin : Encodable (v.plugin.getD ""))
    (hprogram : Encodable (v.pluginInstance.getD ""))
    (hinstance : Encodable (v.typeInstance.getD "")) (htime : v.time = some q)
    (hrange : -2 ^ 63 ≤ pyInt q ∧ pyInt q < 2 ^ 63)
    (hinterval : -2 ^ 63 ≤ pyInt v.interval ∧ pyInt v.interval < 2 ^ 63)
    (hvalues : List.Forall₂ FitsField t.types v.values) :
    ∃ bytes, packValues types v = .ok bytes := by
  have htimestamp : intTimestamp v.time = .ok (pyInt q) := by
    rw [htime]
    rfl
  refine exists_bind_ok ⟨_, htype⟩ fun typeObj htypeObj => ?_
  obtain rfl := Except.ok.inj (htype.symm.trans htypeObj)
  refine exists_bind_ok (packString_ok .host hhost) fun _ _ => ?_
  refine exists_bind_ok (packString_ok .plugin hplugin) fun _ _ => ?_
  refine exists_bind_ok (packString_ok .pluginInstance hprogram) fun _ _ => ?_
  refine exists_bind_ok (packString_ok .type hname) fun _ _ => ?_
  refine exists_bind_ok (packLong_ok .interval hinterval.1 hinterval.2) fun _ _ => ?_
  refine exists_bind_ok (packString_ok .typeInstance hinstance) fun _ _ => ?_
  refine exists_bind_ok ⟨_, htimestamp⟩ fun timestamp hstamp => ?_
  obtain rfl := Except.ok.inj (htimestamp.symm.trans hstamp)
  refine exists_bind_ok (packLong_ok .time hrange.1 hrange.2) fun _ _ => ?_
  exact exists_bind_ok (encodeValues_ok hvalues) fun _ _ => ⟨_, rfl⟩

/-! ### Reports -/

/-- The types that `@sends` registers, for the packer of a sender. -/
def clientTypes : List CollectdType := [poolInternal, totalsInternal]

/-- The loop of `Sender.send`: the datagrams that are sent, and the exception that ends it
when a `Values` object cannot be packed. -/
def sendEach : List (Values Number) → List Bytes × Option PyError
  | [] => ([], none)
  | v :: vs =>
      match packValues clientTypes v with
      | .error e => ([], some e)
      | .ok message =>
          let (messages, raised) := sendEach vs
          (message :: messages, raised)

/-- A call of `Sender.send` by the worker of a process. -/
structure Report where
  sender : Sender
  target : CollectionTarget
  time : ℚ
  token : String

namespace Report

/-- The call. -/
def send (r : Report) : List Bytes × Option PyError :=
  sendEach (r.sender.send r.target r.time Worker.interval r.token)

/-- The process, as the server knows it. -/
def key (r : Report) : ProcessKey := ⟨r.sender.hostname, r.sender.statsName, r.token⟩

/-- What is counted for a type, by its fields. -/
def counts (r : Report) : InternalType → List ℕ
  | .pool => [r.target.numPools, r.target.numCheckedout, r.target.numCheckedin,
      r.target.numDetached, r.target.numConnections]
  | .totals => [r.target.totalCheckouts, r.target.totalInvalidated, r.target.totalConnects,
      r.target.totalDisconnects]
  | .process => []

/-- The `Values` object for a type. -/
def valuesOf (r : Report) (τ : InternalType) : Values Number where
  type := τ.name
  typeInstance := r.token
  plugin := "sqlalchemy"
  pluginInstance := r.sender.statsName
  host := r.sender.hostname
  time := some r.time
  interval := Worker.interval
  values := (r.counts τ).map fun n : ℕ => Number.int n

/-- The message of a report for a type. -/
def message (r : Report) (τ : InternalType) : Message Number where
  type := τ.name
  typeInstance := r.token
  plugin := "sqlalchemy"
  pluginInstance := r.sender.statsName
  host := r.sender.hostname
  time := pyInt r.time
  interval := 2
  values := List.zipWith carried τ.toType.types ((r.counts τ).map fun n : ℕ => Number.int n)

/-- The datagram of a report for a type, where it can be packed. -/
def datagram (r : Report) (τ : InternalType) : Bytes :=
  (packValues clientTypes (r.valuesOf τ)).toOption.getD []

/-- The strings and numbers of a report fit. -/
structure Fits (r : Report) : Prop where
  hostname : Encodable r.sender.hostname
  program : Encodable r.sender.statsName
  token : Encodable r.token
  time : 0 ≤ r.time ∧ r.time < 2 ^ 63
  pool : ∀ n ∈ r.counts .pool, n < 2 ^ 53
  totals : ∀ n ∈ r.counts .totals, n < 2 ^ 63

variable {r : Report} {τ : InternalType}

theorem sender_send (r : Report) :
    r.sender.send r.target r.time Worker.interval r.token = [r.valuesOf .pool, r.valuesOf .totals] :=
  rfl

theorem length_counts (hτ : τ ≠ .process) (r : Report) :
    (r.counts τ).length = τ.toType.dbTemplate.length := by
  cases τ with
  | pool | totals => rfl
  | process => exact absurd rfl hτ

theorem pyInt_range {q : ℚ} (h : 0 ≤ q ∧ q < 2 ^ 63) : -2 ^ 63 ≤ pyInt q ∧ pyInt q < 2 ^ 63 := by
  have hpos := pyInt_nonneg h.1
  have hlt : pyInt q < 2 ^ 63 := by
    rw [pyInt, if_pos h.1]
    exact Int.floor_lt.mpr (by exact_mod_cast h.2)
  omega

theorem Fits.values (h : r.Fits) (hτ : τ ≠ .process) :
    List.Forall₂ FitsField τ.toType.types (r.valuesOf τ).values := by
  have hpool := h.pool
  have htotals := h.totals
  cases τ with
  | pool =>
      simp only [counts, List.forall_mem_cons] at hpool
      obtain ⟨h₁, h₂, h₃, h₄, h₅, -⟩ := hpool
      exact .cons h₁ (.cons h₂ (.cons h₃ (.cons h₄ (.cons h₅ .nil))))
  | totals =>
      simp only [counts, List.forall_mem_cons] at htotals
      have hword : ∀ n : ℕ, n < 2 ^ 63 → FitsField .derive (.int n) := by
        intro n hn
        have hlow : -2 ^ 63 ≤ (n : ℤ) := by omega
        exact ⟨hlow, by exact_mod_cast hn⟩
      obtain ⟨h₁, h₂, h₃, h₄, -⟩ := htotals
      exact .cons (hword _ h₁) (.cons (hword _ h₂) (.cons (hword _ h₃) (.cons (hword _ h₄) .nil)))
  | process => exact absurd rfl hτ

theorem InternalType.encodable_name (τ : InternalType) : Encodable τ.toType.name := by
  cases τ <;> decide +kernel

theorem typeObject_clientTypes (hτ : τ ≠ .process) (r : Report) :
    typeObject clientTypes (r.valuesOf τ).type = .ok τ.toType := by
  cases τ with
  | pool | totals => rfl
  | process => exact absurd rfl hτ

/-- **A report arrives.** Each of its datagrams can be packed, and the server unpacks from
it the message with the counts of the process. -/
theorem unpackBytes_datagram (h : r.Fits) (hτ : τ ≠ .process) :
    packValues clientTypes (r.valuesOf τ) = .ok (r.datagram τ) ∧
      unpackBytes InternalType.types (r.datagram τ) = some (.ok (some (r.message τ))) := by
  have hobject := typeObject_clientTypes hτ r
  have hlookup : (r.valuesOf τ).type.bind (CollectdType.lookup? InternalType.types) =
      some τ.toType := by
    cases τ with
    | pool | totals => rfl
    | process => exact absurd rfl hτ
  have hsame : typeObject clientTypes (r.valuesOf τ).type =
      typeObject InternalType.types (r.valuesOf τ).type := by
    rw [hobject, typeObject, hlookup]
  have hplugin : Encodable ((some "sqlalchemy").getD "") := by decide
  have hinterval : -2 ^ 63 ≤ pyInt Worker.interval ∧ pyInt Worker.interval < 2 ^ 63 := by
    decide +kernel
  obtain ⟨bytes, hbytes⟩ := packValues_ok hobject (InternalType.encodable_name τ) h.hostname
    hplugin h.program h.token rfl (pyInt_range h.time) hinterval (h.values hτ)
  have hdatagram : r.datagram τ = bytes := by rw [datagram, hbytes]; rfl
  have hlength : (r.valuesOf τ).values.length = τ.toType.dbTemplate.length := by
    rw [valuesOf, List.length_map, length_counts hτ]
  obtain ⟨m, hunpack, hreturned, hvalues⟩ :=
    unpackBytes_of_packValues hlookup hlength (packValues_congr hsame ▸ hbytes)
  rw [hdatagram]
  refine ⟨hbytes, hunpack.trans ?_⟩
  have htype := hreturned.type
  have htime := hreturned.time
  -- what has come back, field by field
  obtain ⟨type, typeInstance, plugin, pluginInstance, host, time, interval, values⟩ := m
  obtain rfl : τ.name = type := Option.some.inj htype
  obtain rfl : (pyInt r.time : ℚ) = time := Option.some.inj htime
  obtain rfl : typeInstance = r.token := hreturned.typeInstance
  obtain rfl : plugin = "sqlalchemy" := hreturned.plugin
  obtain rfl : pluginInstance = r.sender.statsName := hreturned.pluginInstance
  obtain rfl : host = r.sender.hostname := hreturned.host
  obtain rfl : interval = (pyInt Worker.interval : ℚ) := hreturned.interval
  obtain rfl : values = _ := hvalues
  have htwo : (pyInt Worker.interval : ℚ) = 2 := by decide +kernel
  rw [htwo]
  rfl

/-- **A report that fits is sent as a whole.** -/
theorem send_eq (h : r.Fits) : r.send = ([r.datagram .pool, r.datagram .totals], none) := by
  have hpool := (unpackBytes_datagram (τ := .pool) h (by decide)).1
  have htotals := (unpackBytes_datagram (τ := .totals) h (by decide)).1
  rw [send, sender_send, sendEach, hpool, sendEach, htotals, sendEach]

/-- The counts of a report, as they arrive. -/
theorem counts_message (hτ : τ ≠ .process) (r : Report) (i : ℕ) :
    match (r.message τ).values[i]? with
    | some x => x.Counts ((r.counts τ).getD i 0)
    | none => (r.counts τ).getD i 0 = 0 := by
  have hcarried : ∀ (t : ValueType) (n : ℕ), (carried t (.int n)).Counts n := by
    intro t n
    cases t with
    | gauge => exact Or.inr rfl
    | counter | derive | absolute => exact Or.inl rfl
  have hlength : (r.counts τ).length = τ.toType.types.length := by
    rw [length_counts hτ, CollectdType.length_types]
  rw [message, List.getElem?_zipWith, List.getElem?_map, List.getD_eq_getElem?_getD]
  cases hcount : (r.counts τ)[i]? with
  | none => cases τ.toType.types[i]? <;> rfl
  | some n =>
      have hi : i < τ.toType.types.length := hlength ▸ (List.getElem?_eq_some_iff.mp hcount).1
      rw [List.getElem?_eq_getElem hi]
      exact hcarried _ n

end Report

end SqlalchemyCollectd
