import SqlalchemyCollectd.Protocol.Framing

/-!
# SqlalchemyCollectd.Protocol.Garbled

Which datagrams `unpack_bytes` survives.

It looks out for two things only, a missing type part and a type that is not
registered. Everything else about a garbled datagram is an exception: a part that
cannot be read (`Readable`), and, once the type is known, any other part that is
missing. So `unpack_bytes` returns exactly on the datagrams all of whose parts can be
read and which, if they name a registered type, have a part of every kind
(`unpackBytes_returns_iff`).
-/

namespace SqlalchemyCollectd

open Struct

namespace Parts

/-- The slot is filled. -/
def has (r : Parts) : PartType → Bool
  | .host => r.host.isSome
  | .time => r.time.isSome
  | .plugin => r.plugin.isSome
  | .pluginInstance => r.pluginInstance.isSome
  | .type => r.type.isSome
  | .typeInstance => r.typeInstance.isSome
  | .values => r.values.isSome
  | .interval => r.interval.isSome

theorem has_setText {slot : PartType} (h : slot.isText) (s : String) (r : Parts) (t : PartType) :
    (setText slot s r).has t = (decide (t = slot) || r.has t) := by
  cases slot <;> first | exact absurd h (by decide) | (cases t <;> rfl)

theorem has_setNumber {slot : PartType} (h : slot.isNumber) (n : ℤ) (r : Parts) (t : PartType) :
    (setNumber slot n r).has t = (decide (t = slot) || r.has t) := by
  cases slot <;> first | exact absurd h (by decide) | (cases t <;> rfl)

theorem type_setText {slot : PartType} (h : slot.isText) (s : String) (r : Parts) :
    (setText slot s r).type = if slot = .type then some s else r.type := by
  cases slot <;> first | exact absurd h (by decide) | rfl

theorem type_setNumber {slot : PartType} (h : slot.isNumber) (n : ℤ) (r : Parts) :
    (setNumber slot n r).type = r.type := by
  cases slot <;> first | exact absurd h (by decide) | rfl

end Parts

theorem of_lookupPart_bind {β γ : Type} {o : Option β} {f : β → Except PyError γ} {c : γ}
    (h : (lookupPart o >>= f) = .ok c) : ∃ b, o = some b ∧ f b = .ok c := by
  cases o with
  | none => cases h
  | some b => exact ⟨b, rfl, h⟩

/-- What `_to_value` has read when it returns. -/
theorem of_toValue {r : Parts} {m : Message Number} (h : toValue r = .ok m) :
    r.type = some m.type ∧ ∀ t, r.has t := by
  obtain ⟨host, hhost, h⟩ := of_lookupPart_bind h
  obtain ⟨time, htime, h⟩ := of_lookupPart_bind h
  obtain ⟨plugin, hplugin, h⟩ := of_lookupPart_bind h
  obtain ⟨pluginInstance, hpluginInstance, h⟩ := of_lookupPart_bind h
  obtain ⟨type, htype, h⟩ := of_lookupPart_bind h
  obtain ⟨typeInstance, htypeInstance, h⟩ := of_lookupPart_bind h
  obtain ⟨values, hvalues, h⟩ := of_lookupPart_bind h
  obtain ⟨interval, hinterval, h⟩ := of_lookupPart_bind h
  cases h
  exact ⟨htype, fun t => by cases t <;> simp_all [Parts.has]⟩

/-- `_to_value` needs every slot. -/
theorem exists_toValue_iff {r : Parts} : (∃ m, toValue r = .ok m) ↔ ∀ t, r.has t := by
  constructor
  · intro ⟨m, h⟩
    exact (of_toValue h).2
  · intro h
    obtain ⟨host, hhost⟩ := Option.isSome_iff_exists.mp (h .host)
    obtain ⟨time, htime⟩ := Option.isSome_iff_exists.mp (h .time)
    obtain ⟨plugin, hplugin⟩ := Option.isSome_iff_exists.mp (h .plugin)
    obtain ⟨pluginInstance, hpluginInstance⟩ := Option.isSome_iff_exists.mp (h .pluginInstance)
    obtain ⟨type, htype⟩ := Option.isSome_iff_exists.mp (h .type)
    obtain ⟨typeInstance, htypeInstance⟩ := Option.isSome_iff_exists.mp (h .typeInstance)
    obtain ⟨values, hvalues⟩ := Option.isSome_iff_exists.mp (h .values)
    obtain ⟨interval, hinterval⟩ := Option.isSome_iff_exists.mp (h .interval)
    unfold toValue
    rw [hhost, htime, hplugin, hpluginInstance, htype, htypeInstance, hvalues, hinterval]
    exact ⟨_, rfl⟩

section Interpretation

variable {types : List CollectdType} {r : Parts}

theorem interpretParts_eq_none_iff :
    interpretParts types r = .ok none ↔ r.type.bind (CollectdType.lookup? types) = none := by
  unfold interpretParts
  cases r.type.bind (CollectdType.lookup? types) with
  | none => simp
  | some registered => cases toValue r <;> simp [bind, Except.bind, pure, Except.pure]

theorem interpretParts_eq_some_iff {m : Message Number} :
    interpretParts types r = .ok (some m) ↔
      (r.type.bind (CollectdType.lookup? types)).isSome ∧ toValue r = .ok m := by
  unfold interpretParts
  cases r.type.bind (CollectdType.lookup? types) with
  | none => simp
  | some registered => cases toValue r <;> simp [bind, Except.bind, pure, Except.pure]

end Interpretation

/-! ### The slots that the parts fill -/

theorem has_partEffect {p : Bytes} (h : Readable p) (r : Parts) (t : PartType) :
    (partEffect p r).has t = (decide (partType? p = some t) || r.has t) := by
  cases hslot : partType? p with
  | none => simp [partEffect_of_none hslot]
  | some slot =>
      have hswap : (some slot = some t) = (t = slot) := by
        simp [eq_comm]
      simp only [hswap]
      by_cases htext : slot.isText
      · rw [partEffect_of_text h hslot htext, Parts.has_setText htext]
      · by_cases hnumber : slot.isNumber
        · rw [partEffect_of_number h hslot hnumber, Parts.has_setNumber hnumber]
        · obtain rfl := PartType.eq_values htext hnumber
          obtain ⟨xs, -, heffect⟩ := partEffect_of_values h hslot
          rw [heffect]
          cases t <;> rfl

theorem type_partEffect {p : Bytes} (h : Readable p) (r : Parts) :
    (partEffect p r).type =
      if partType? p = some .type then some (asciiString (partText p)) else r.type := by
  cases hslot : partType? p with
  | none => simp [partEffect_of_none hslot]
  | some slot =>
      simp only [Option.some.injEq]
      by_cases htext : slot.isText
      · rw [partEffect_of_text h hslot htext, Parts.type_setText htext]
      · have htype : slot ≠ .type := by
          rintro rfl
          exact htext rfl
        rw [if_neg htype]
        by_cases hnumber : slot.isNumber
        · rw [partEffect_of_number h hslot hnumber, Parts.type_setNumber hnumber]
        · obtain rfl := PartType.eq_values htext hnumber
          obtain ⟨xs, -, heffect⟩ := partEffect_of_values h hslot
          rw [heffect]

/-- The last of the type parts at the stops of the loop. -/
def lastType (ps : List Bytes) : Option Bytes :=
  (ps.filter fun p => partType? p = some .type).getLast?

/-- The parts of a datagram, put together. -/
def gather (ps : List Bytes) : Parts := ps.foldl (fun r p => partEffect p r) {}

theorem gather_append (ps : List Bytes) (p : Bytes) :
    gather (ps ++ [p]) = partEffect p (gather ps) := by
  simp [gather]

theorem has_gather {ps : List Bytes} (h : ∀ p ∈ ps, Readable p) (t : PartType) :
    (gather ps).has t ↔ ∃ p ∈ ps, partType? p = some t := by
  induction ps using List.reverseRecOn with
  | nil => cases t <;> simp [gather, Parts.has]
  | append_singleton ps p ih =>
      have hp := h p (List.mem_append_right _ List.mem_cons_self)
      rw [gather_append, has_partEffect hp, Bool.or_eq_true, decide_eq_true_iff,
        ih fun q hq => h q (List.mem_append_left _ hq)]
      simp only [List.mem_append, List.mem_singleton, or_and_right, exists_or, exists_eq_left]
      exact or_comm

theorem type_gather {ps : List Bytes} (h : ∀ p ∈ ps, Readable p) :
    (gather ps).type = (lastType ps).map fun p => asciiString (partText p) := by
  induction ps using List.reverseRecOn with
  | nil => rfl
  | append_singleton ps p ih =>
      have hp := h p (List.mem_append_right _ List.mem_cons_self)
      rw [gather_append, type_partEffect hp, ih fun q hq => h q (List.mem_append_left _ hq)]
      unfold lastType
      rw [List.filter_append]
      by_cases htype : partType? p = some .type
      · simp [htype]
      · simp [htype]

/-! ### What `unpack_bytes` makes of them -/

/-- Every part that the loop meets can be read. -/
structure Legible (buf : Bytes) (ps : List Bytes) : Prop where
  hops : Hops buf ps
  readable : ∀ p ∈ ps, Readable p

/-- The last type part names a registered type. -/
def NamesType (types : List CollectdType) (ps : List Bytes) : Prop :=
  ∃ p, lastType ps = some p ∧ (CollectdType.lookup? types (asciiString (partText p))).isSome

/-- There is a part of every kind. -/
def Complete (ps : List Bytes) : Prop := ∀ slot, ∃ p ∈ ps, partType? p = some slot

theorem unpackBytes_of_legible {buf : Bytes} {ps : List Bytes} (h : Legible buf ps)
    (types : List CollectdType) :
    unpackBytes types buf = some (interpretParts types (gather ps)) := by
  unfold unpackBytes
  rw [unpackPacket_ok_iff.mpr ⟨ps, h.hops, h.readable, rfl⟩]
  rfl

theorem legible_of_unpackBytes {types : List CollectdType} {buf : Bytes}
    {result : Option (Message Number)} (h : unpackBytes types buf = some (.ok result)) :
    ∃ ps, Legible buf ps := by
  unfold unpackBytes at h
  obtain ⟨parts, hparts, hresult⟩ := Option.map_eq_some_iff.mp h
  cases parts with
  | error e => cases hresult
  | ok r =>
      obtain ⟨ps, hhops, hreadable, -⟩ := unpackPacket_ok_iff.mp hparts
      exact ⟨ps, hhops, hreadable⟩

theorem namesType_iff {ps : List Bytes} (hreadable : ∀ p ∈ ps, Readable p)
    {types : List CollectdType} :
    NamesType types ps ↔ ((gather ps).type.bind (CollectdType.lookup? types)).isSome := by
  rw [type_gather hreadable, NamesType]
  cases lastType ps with
  | none => simp
  | some p => simp

theorem complete_iff {ps : List Bytes} (hreadable : ∀ p ∈ ps, Readable p) :
    Complete ps ↔ ∃ m, toValue (gather ps) = .ok m := by
  rw [exists_toValue_iff]
  exact forall_congr' fun t => (has_gather hreadable t).symm

/-- **Which datagrams are decoded to a message.** -/
theorem exists_unpackBytes_iff {types : List CollectdType} {buf : Bytes} :
    (∃ m, unpackBytes types buf = some (.ok (some m))) ↔
      ∃ ps, Legible buf ps ∧ NamesType types ps ∧ Complete ps := by
  constructor
  · intro ⟨m, h⟩
    obtain ⟨ps, hlegible⟩ := legible_of_unpackBytes h
    rw [unpackBytes_of_legible hlegible, Option.some.injEq, interpretParts_eq_some_iff] at h
    exact ⟨ps, hlegible, (namesType_iff hlegible.readable).mpr h.1,
      (complete_iff hlegible.readable).mpr ⟨m, h.2⟩⟩
  · intro ⟨ps, hlegible, hnames, hcomplete⟩
    obtain ⟨m, hm⟩ := (complete_iff hlegible.readable).mp hcomplete
    refine ⟨m, ?_⟩
    rw [unpackBytes_of_legible hlegible, Option.some.injEq, interpretParts_eq_some_iff]
    exact ⟨(namesType_iff hlegible.readable).mp hnames, hm⟩

/-- **Which datagrams `unpack_bytes` survives.** It returns, and what it returns is
nothing or a message of a registered type, exactly when every part that the loop meets
can be read and a datagram that names a registered type is complete. -/
theorem unpackBytes_returns_iff (types : List CollectdType) (buf : Bytes) :
    (∃ result, unpackBytes types buf = some (.ok result) ∧
      ∀ m ∈ result, (CollectdType.lookup? types m.type).isSome) ↔
    ∃ ps, Legible buf ps ∧ (NamesType types ps → Complete ps) := by
  constructor
  · intro ⟨result, h, _⟩
    obtain ⟨ps, hlegible⟩ := legible_of_unpackBytes h
    refine ⟨ps, hlegible, fun hnames => ?_⟩
    rw [unpackBytes_of_legible hlegible, Option.some.injEq] at h
    cases result with
    | some m =>
        exact (complete_iff hlegible.readable).mpr ⟨m, (interpretParts_eq_some_iff.mp h).2⟩
    | none =>
        have hnamed := (namesType_iff hlegible.readable).mp hnames
        rw [interpretParts_eq_none_iff.mp h] at hnamed
        cases hnamed
  · intro ⟨ps, hlegible, hcomplete⟩
    have hnamed : NamesType types ps ↔ _ := namesType_iff hlegible.readable
    by_cases hnames : NamesType types ps
    · obtain ⟨m, hm⟩ := (complete_iff hlegible.readable).mp (hcomplete hnames)
      have hregistered := hnamed.mp hnames
      refine ⟨some m, ?_, ?_⟩
      · rw [unpackBytes_of_legible hlegible, interpretParts_eq_some_iff.mpr ⟨hregistered, hm⟩]
      · rintro _ ⟨⟩
        simpa [(of_toValue hm).1] using hregistered
    · have hnone : (gather ps).type.bind (CollectdType.lookup? types) = none := by
        simpa using mt hnamed.mpr hnames
      refine ⟨none, ?_, fun m hm => by cases hm⟩
      rw [unpackBytes_of_legible hlegible, interpretParts_eq_none_iff.mpr hnone]

/-- One byte is too short for a header, and a lone part with a registered type has no
host. -/
theorem unpackBytes_raises :
    Terminates [0x00] ∧
      unpackBytes [⟨"t", [], by decide⟩] [0x00] = some (.error .structError) ∧
      Terminates [0x00, 0x04, 0x00, 0x06, 0x74, 0x00] ∧
      unpackBytes [⟨"t", [], by decide⟩] [0x00, 0x04, 0x00, 0x06, 0x74, 0x00] =
        some (.error .keyError) :=
  ⟨⟨1, by decide +kernel⟩, by decide +kernel, ⟨1, by decide +kernel⟩, by decide +kernel⟩

end SqlalchemyCollectd
