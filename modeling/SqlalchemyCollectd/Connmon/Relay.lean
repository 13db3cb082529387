import SqlalchemyCollectd.Protocol.RoundTrip
import SqlalchemyCollectd.Stream.Translator

/-!
# SqlalchemyCollectd.Connmon.Relay

The way of an external value from collectd to connmon.

The connmon plugin packs what collectd hands it with the two external types; the
monitor unpacks it with the same types in the other order. `relay_ok` says when a
value makes it, and `Carries` what arrives.
-/

namespace SqlalchemyCollectd

open Struct

/-- `types` of `start_plugin`, for the packer of the connmon plugin. -/
def senderTypes : List CollectdType := [deriveExternal, countExternal]

/-- The types that `main_async` gives to the unpacker of the monitor. -/
def monitorTypes : List CollectdType := [countExternal, deriveExternal]

/-- A value packed by the connmon plugin and unpacked by the monitor. -/
def relay (v : Values Number) : Option (Except PyError (Option (Message Number))) :=
  match packValues senderTypes v with
  | .ok bytes => unpackBytes monitorTypes bytes
  | .error e => some (.error e)

/-- The order of the types makes no difference. -/
theorem lookup?_senderTypes (name : String) :
    CollectdType.lookup? senderTypes name = CollectdType.lookup? monitorTypes name := by
  unfold CollectdType.lookup?
  by_cases hcount : name = "count"
  · subst hcount
    decide
  · by_cases hderive : name = "derive"
    · subst hderive
      decide
    · have hnot : ∀ types : List CollectdType, types ⊆ monitorTypes →
          types.find? (fun t => t.name = name) = none := by
        intro types hsub
        rw [List.find?_eq_none]
        intro t ht
        rcases List.mem_pair.mp (hsub ht) with rfl | rfl
        · exact decide_eq_false (Ne.symm hcount) ▸ Bool.false_ne_true
        · exact decide_eq_false (Ne.symm hderive) ▸ Bool.false_ne_true
      rw [hnot _ (by decide), hnot _ (by decide)]

theorem packValues_senderTypes (v : Values Number) :
    packValues senderTypes v = packValues monitorTypes v := by
  have htype : typeObject senderTypes v.type = typeObject monitorTypes v.type := by
    unfold typeObject
    rw [funext lookup?_senderTypes]
  unfold packValues
  rw [htype]

namespace InternalType

/-- The external type of an internal one. -/
def external : InternalType → CollectdType
  | pool => countExternal
  | totals => deriveExternal
  | process => countExternal

/-- The kind of its one field. -/
def kind : InternalType → ValueType
  | pool => .gauge
  | totals => .derive
  | process => .gauge

theorem types_external (τ : InternalType) : τ.external.types = [τ.kind] := by
  cases τ <;> rfl

theorem lookup?_external (τ : InternalType) :
    CollectdType.lookup? monitorTypes τ.externalName = some τ.external := by
  cases τ <;> decide

end InternalType

/-! ### What can be packed -/

/-- A string that fits into a part. -/
structure Encodable (s : String) : Prop where
  ascii : s.toList.all (·.toNat < 128) = true
  short : 5 + s.length < 2 ^ 16

instance (s : String) : Decidable (Encodable s) :=
  decidable_of_iff (s.toList.all (·.toNat < 128) = true ∧ 5 + s.length < 2 ^ 16)
    ⟨fun h => ⟨h.1, h.2⟩, fun h => ⟨h.ascii, h.short⟩⟩

theorem InternalType.encodable_external (τ : InternalType) : Encodable τ.external.name := by
  cases τ <;> decide +kernel

theorem InternalType.encodable_names (τ : InternalType) : ∀ field ∈ τ.toType.names, Encodable field := by
  cases τ <;> decide +kernel

theorem exists_bind_ok {β γ : Type} {x : Except PyError β} {f : β → Except PyError γ}
    (hx : ∃ b, x = .ok b) (hf : ∀ b, x = .ok b → ∃ c, f b = .ok c) : ∃ c, (x >>= f) = .ok c := by
  obtain ⟨b, rfl⟩ := hx
  exact hf b rfl

theorem packHeader_ok (slot : PartType) {length : ℕ} (h : length < 2 ^ 16) :
    ∃ bs, packHeader slot length = .ok bs := by
  have hfits : ∀ n : ℕ, n < 2 ^ 16 → ∃ bs, structCall (packUnsigned 2 n) = .ok bs := by
    intro n hn
    have hrange : (0 : ℤ) ≤ (n : ℤ) ∧ (n : ℤ) < 256 ^ 2 := ⟨by positivity, by norm_num; omega⟩
    exact ⟨_, by rw [packUnsigned, if_pos hrange]; rfl⟩
  refine exists_bind_ok (hfits slot.code (by cases slot <;> decide)) fun code _ => ?_
  exact exists_bind_ok (hfits length h) fun len _ => ⟨_, rfl⟩

theorem packString_ok (slot : PartType) {value : Option String} (h : Encodable (value.getD "")) :
    ∃ bs, packString slot value = .ok bs := by
  refine exists_bind_ok (packHeader_ok slot h.short) fun head _ => ?_
  exact exists_bind_ok ⟨_, by rw [encodeAscii, if_pos h.ascii]⟩ fun body _ => ⟨_, rfl⟩

theorem packSigned_ok {n : ℤ} (hlo : -2 ^ 63 ≤ n) (hhi : n < 2 ^ 63) :
    ∃ bs, structCall (packSigned 8 n) = .ok bs := by
  have hrange : -(256 ^ 8) ≤ n * 2 ∧ n * 2 < 256 ^ 8 := by omega
  exact ⟨_, by rw [packSigned, if_pos hrange]; rfl⟩

theorem packLong_ok (slot : PartType) {n : ℤ} (hlo : -2 ^ 63 ≤ n) (hhi : n < 2 ^ 63) :
    ∃ bs, packLong slot n = .ok bs := by
  refine exists_bind_ok (packHeader_ok slot (by norm_num)) fun head _ => ?_
  exact exists_bind_ok (packSigned_ok hlo hhi) fun body _ => ⟨_, rfl⟩

/-- A number that fits into a field of an external type. -/
def FitsField : ValueType → Number → Prop
  | .gauge, .float _ => True
  | .gauge, .int n => n.natAbs < 2 ^ 53
  | .derive, .int n => -2 ^ 63 ≤ n ∧ n < 2 ^ 63
  | _, _ => False

theorem packFormat_ok {t : ValueType} {x : Number} (h : FitsField t x) :
    ∃ bs, packFormat t x = .ok bs := by
  cases t with
  | counter => cases x <;> cases h
  | absolute => cases x <;> cases h
  | derive =>
      cases x with
      | float x => cases h
      | int n =>
          obtain ⟨hlo, hhi⟩ := h
          exact packSigned_ok hlo hhi
  | gauge =>
      cases x with
      | float x => exact ⟨_, rfl⟩
      | int n =>
          have hfinite := Float.isInf_eq_false (Float.value?_nearest h)
          exact ⟨_, by rw [packFormat, hfinite]; rfl⟩

/-! ### What arrives -/

/-- An external value with its label. -/
structure Labelled (τ : InternalType) (host program field : String) (t : ℚ) (x : Number)
    (v : Values Number) : Prop where
  type : v.type = some τ.externalName
  host : v.host = some host
  program : v.pluginInstance = some program
  field : v.typeInstance = some field
  time : v.time = some t
  values : v.values = [x]

/-- The message in which such a value arrives. -/
structure Carries (τ : InternalType) (host program field : String) (t : ℚ) (x : Number)
    (m : Message Number) : Prop where
  host : m.host = host
  program : m.pluginInstance = program
  field : m.typeInstance = field
  time : m.time = pyInt t
  values : m.values = [carried τ.kind x]

section Arrival

variable {τ : InternalType} {host program field : String} {t : ℚ} {x : Number}
  {v : Values Number}

theorem relay_of_packValues (h : Labelled τ host program field t x v) {bytes : Bytes}
    (hpack : packValues senderTypes v = .ok bytes) :
    ∃ m, relay v = some (.ok (some m)) ∧ Carries τ host program field t x m := by
  have htype : v.type.bind (CollectdType.lookup? monitorTypes) = some τ.external := by
    rw [h.type, Option.bind_some, τ.lookup?_external]
  have hcount : v.values.length = τ.external.dbTemplate.length := by
    rw [h.values, ← τ.external.length_types, τ.types_external]
    rfl
  obtain ⟨m, hunpack, hreturned, hvalues⟩ :=
    unpackBytes_of_packValues htype hcount (packValues_senderTypes v ▸ hpack)
  refine ⟨m, by rw [relay, hpack]; exact hunpack, ?_, ?_, ?_, ?_, ?_⟩
  · rw [hreturned.host, h.host, Option.getD_some]
  · rw [hreturned.pluginInstance, h.program, Option.getD_some]
  · rw [hreturned.typeInstance, h.field, Option.getD_some]
  · have htime := hreturned.time
    rw [h.time] at htime
    exact (Option.some.inj htime).symm
  · rw [hvalues, h.values, τ.types_external]
    rfl

/-- **An external value makes it to the monitor** if its strings and numbers fit. -/
theorem relay_ok (h : Labelled τ host program field t x v) (hhost : Encodable host)
    (hprogram : Encodable program) (hfield : Encodable field)
    (hplugin : Encodable (v.plugin.getD "")) (htime : -2 ^ 63 ≤ pyInt t ∧ pyInt t < 2 ^ 63)
    (hinterval : -2 ^ 63 ≤ pyInt v.interval ∧ pyInt v.interval < 2 ^ 63)
    (hx : FitsField τ.kind x) :
    ∃ m, relay v = some (.ok (some m)) ∧ Carries τ host program field t x m := by
  have htype : typeObject senderTypes v.type = .ok τ.external := by
    rw [typeObject, h.type, Option.bind_some, lookup?_senderTypes, τ.lookup?_external]
  have htimestamp : intTimestamp v.time = .ok (pyInt t) := by
    rw [h.time]
    rfl
  have hpayload : ∃ bs, τ.external.encodeValues v.values = .ok bs := by
    rw [CollectdType.encodeValues, τ.types_external, h.values]
    refine exists_bind_ok ?_ fun fields _ => ⟨_, rfl⟩
    exact exists_bind_ok (packFormat_ok hx) fun field _ =>
      exists_bind_ok ⟨_, rfl⟩ fun rest _ => ⟨_, rfl⟩
  obtain ⟨bytes, hpack⟩ : ∃ bytes, packValues senderTypes v = .ok bytes := by
    refine exists_bind_ok ⟨_, htype⟩ fun typeObj htypeObj => ?_
    obtain rfl := Except.ok.inj (htype.symm.trans htypeObj)
    refine exists_bind_ok (packString_ok .host (by rw [h.host]; exact hhost)) fun _ _ => ?_
    refine exists_bind_ok (packString_ok .plugin hplugin) fun _ _ => ?_
    refine exists_bind_ok (packString_ok .pluginInstance (by rw [h.program]; exact hprogram))
      fun _ _ => ?_
    refine exists_bind_ok (packString_ok .type τ.encodable_external) fun _ _ => ?_
    refine exists_bind_ok (packLong_ok .interval hinterval.1 hinterval.2) fun _ _ => ?_
    refine exists_bind_ok (packString_ok .typeInstance (by rw [h.field]; exact hfield))
      fun _ _ => ?_
    refine exists_bind_ok ⟨_, htimestamp⟩ fun timestamp hstamp => ?_
    obtain rfl := Except.ok.inj (htimestamp.symm.trans hstamp)
    refine exists_bind_ok (packLong_ok .time htime.1 htime.2) fun _ _ => ?_
    exact exists_bind_ok hpayload fun _ _ => ⟨_, rfl⟩
  exact relay_of_packValues h hpack

/-- **What arrives** carries what was sent. -/
theorem carries_of_relay (h : Labelled τ host program field t x v) {m : Message Number}
    (hrelay : relay v = some (.ok (some m))) : Carries τ host program field t x m := by
  cases hpack : packValues senderTypes v with
  | error e =>
      rw [relay, hpack] at hrelay
      cases hrelay
  | ok bytes =>
      obtain ⟨m', hrelay', hcarries⟩ := relay_of_packValues h hpack
      rw [hrelay] at hrelay'
      obtain rfl : m = m' := by simpa using hrelay'
      exact hcarries

end Arrival

end SqlalchemyCollectd
