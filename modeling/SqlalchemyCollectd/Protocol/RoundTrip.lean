import SqlalchemyCollectd.Protocol.Wire

/-!
# SqlalchemyCollectd.Protocol.RoundTrip

What `MessagePacker.pack_values` writes, `MessageUnpacker.unpack_bytes` reads back.

The packer is a printer for the grammar of `Protocol.Wire`: each of its three ways
of writing a part, when it does not raise, writes a well-formed part with the
intended content (`packString_eq_bytes`, `packLong_eq_bytes`,
`encodeValues_eq_bytes`). The round trip is then one evaluation of
`unpackPacket_flatMap_bytes` on the eight parts of a message.

One thing does not survive: an int in a `GAUGE` field is written as the nearest
double, so it comes back as that double.
-/

namespace SqlalchemyCollectd

open Struct

/-! ### Steps that did not raise -/

theorem bind_eq_ok {β γ : Type} {x : Except PyError β} {f : β → Except PyError γ} {c : γ}
    (h : (x >>= f) = .ok c) : ∃ b, x = .ok b ∧ f b = .ok c := by
  cases x with
  | error e => cases h
  | ok b => exact ⟨b, rfl, h⟩

theorem structCall_eq_ok {β : Type} {o : Option β} {b : β} (h : structCall o = .ok b) :
    o = some b := by
  cases o with
  | none => cases h
  | some b' => exact congrArg some (Except.ok.inj h)

theorem packUnsigned_eq_beBytes {w n : ℕ} {bs : Bytes} (h : packUnsigned w n = some bs) :
    n < 256 ^ w ∧ bs = beBytes w n := by
  unfold packUnsigned at h
  split at h
  · rename_i hrange
    exact ⟨by exact_mod_cast hrange.2, by rw [← Option.some.inj h, Int.toNat_natCast]⟩
  · cases h

theorem packHeader_eq_header {slot : PartType} {length : ℕ} {bs : Bytes}
    (h : packHeader slot length = .ok bs) :
    length < 2 ^ 16 ∧ bs = WirePart.header slot.code length := by
  obtain ⟨code, hcode, h⟩ := bind_eq_ok h
  obtain ⟨len, hlen, h⟩ := bind_eq_ok h
  obtain ⟨_, rfl⟩ := packUnsigned_eq_beBytes (structCall_eq_ok hcode)
  obtain ⟨hlt, rfl⟩ := packUnsigned_eq_beBytes (structCall_eq_ok hlen)
  exact ⟨hlt, (Except.ok.inj h).symm⟩

/-! ### Strings -/

theorem encodeAscii_eq_ok {s : String} {bs : Bytes} (h : encodeAscii s = .ok bs) :
    bs.length = s.length ∧ (∀ b ∈ bs, b.toNat < 128) ∧ asciiString bs = s := by
  unfold encodeAscii at h
  split at h
  · rename_i hall
    have hlt : ∀ c ∈ s.toList, c.toNat < 128 := fun c hc => by
      simpa using List.all_eq_true.mp hall c hc
    have hbyte : ∀ c ∈ s.toList, (UInt8.ofNat c.toNat).toNat = c.toNat := fun c hc => by
      rw [UInt8.toNat_ofNat']
      exact Nat.mod_eq_of_lt ((hlt c hc).trans (by norm_num))
    rw [← Except.ok.inj h]
    refine ⟨?_, ?_, ?_⟩
    · rw [List.length_map, String.length_toList]
    · intro b hb
      obtain ⟨c, hc, rfl⟩ := List.mem_map.mp hb
      rw [hbyte c hc]
      exact hlt c hc
    · unfold asciiString
      rw [List.map_map, List.map_congr_left (g := id), List.map_id, String.ofList_toList]
      intro c hc
      rw [Function.comp_apply, hbyte c hc, Char.ofNat_toNat, id]
  · cases h

theorem packString_eq_bytes {slot : PartType} (hslot : slot.isText) {value : Option String}
    {bs : Bytes} (h : packString slot value = .ok bs) :
    ∃ p : WirePart, bs = p.bytes ∧ p.effect = Parts.setText slot (value.getD "") := by
  obtain ⟨head, hhead, h⟩ := bind_eq_ok h
  obtain ⟨content, hcontent, h⟩ := bind_eq_ok h
  obtain ⟨hfits, rfl⟩ := packHeader_eq_header hhead
  obtain ⟨hlength, hascii, hstring⟩ := encodeAscii_eq_ok hcontent
  rw [← hlength] at hfits h
  refine ⟨.text slot content hslot hascii hfits, ?_, ?_⟩
  · rw [← Except.ok.inj h, WirePart.bytes, List.append_assoc]
  · rw [WirePart.effect, hstring]

/-! ### Numbers -/

theorem packSigned_bmod {n : ℤ} {body : Bytes} (h : packSigned 8 n = some body) :
    (beNat body : ℤ).bmod (256 ^ 8) = n := by
  have hunpack := unpackSigned_pack h []
  unfold unpackSigned at hunpack
  rw [takeExact_append (length_packSigned h), Option.map_some] at hunpack
  exact Option.some.inj hunpack

theorem packLong_eq_bytes {slot : PartType} (hslot : slot.isNumber) {n : ℤ} {bs : Bytes}
    (h : packLong slot n = .ok bs) :
    ∃ p : WirePart, bs = p.bytes ∧ p.effect = Parts.setNumber slot n := by
  obtain ⟨head, hhead, h⟩ := bind_eq_ok h
  obtain ⟨body, hbody, h⟩ := bind_eq_ok h
  obtain ⟨_, rfl⟩ := packHeader_eq_header hhead
  have hpack := structCall_eq_ok hbody
  refine ⟨.number slot body hslot (length_packSigned hpack), (Except.ok.inj h).symm, ?_⟩
  rw [WirePart.effect, packSigned_bmod hpack]

/-! ### Values -/

/-- The number that comes back from a field: a `GAUGE` field holds a double. -/
def carried : ValueType → Number → Number
  | .gauge, x => .float x.toFloat
  | _, x => x

theorem packUnsigned_beNat {n : ℤ} {body : Bytes} (h : packUnsigned 8 n = some body) :
    Number.int (beNat body) = .int n := by
  have hunpack := unpackUnsigned_pack h []
  unfold unpackUnsigned at hunpack
  rw [takeExact_append (length_packUnsigned h), Option.map_some, Option.map_some] at hunpack
  exact congrArg Number.int (Option.some.inj hunpack)

theorem fieldValue_packDouble (x : Float) : fieldValue .gauge (packDouble x) = .float x := by
  have hunpack := unpackDouble_pack x []
  unfold unpackDouble at hunpack
  rw [takeExact_append (length_packDouble x), Option.map_some] at hunpack
  exact congrArg Number.float (Option.some.inj hunpack)

theorem packFormat_eq_ok {t : ValueType} {x : Number} {body : Bytes}
    (h : packFormat t x = .ok body) : body.length = 8 ∧ fieldValue t body = carried t x := by
  cases t with
  | counter =>
      cases x with
      | int n =>
          have hpack := structCall_eq_ok h
          exact ⟨length_packUnsigned hpack, packUnsigned_beNat hpack⟩
      | float x => cases h
  | absolute =>
      cases x with
      | int n =>
          have hpack := structCall_eq_ok h
          exact ⟨length_packUnsigned hpack, packUnsigned_beNat hpack⟩
      | float x => cases h
  | derive =>
      cases x with
      | int n =>
          have hpack := structCall_eq_ok h
          exact ⟨length_packSigned hpack, congrArg Number.int (packSigned_bmod hpack)⟩
      | float x => cases h
  | gauge =>
      cases x with
      | int n =>
          simp only [packFormat] at h
          split at h
          · cases h
          · rw [← Except.ok.inj h]
            exact ⟨length_packDouble _, fieldValue_packDouble _⟩
      | float x =>
          rw [← Except.ok.inj h]
          exact ⟨length_packDouble _, fieldValue_packDouble _⟩

theorem packFields_eq_ok {ts : List ValueType} :
    ∀ {xs : List Number} {bs : Bytes}, xs.length = ts.length → packFields ts xs = .ok bs →
      ∃ fields : List (ValueType × Bytes), fields.map Prod.fst = ts ∧
        (∀ f ∈ fields, f.2.length = 8) ∧ bs = fields.flatMap Prod.snd ∧
        (fields.map fun f => fieldValue f.1 f.2) = List.zipWith carried ts xs := by
  induction ts with
  | nil =>
      intro xs bs hlen h
      rw [List.length_eq_zero_iff.mp hlen] at h ⊢
      exact ⟨[], rfl, by simp, (Except.ok.inj h).symm, rfl⟩
  | cons t ts ih =>
      intro xs bs hlen h
      cases xs with
      | nil => cases hlen
      | cons x xs =>
          obtain ⟨body, hbody, h⟩ := bind_eq_ok h
          obtain ⟨rest, hrest, h⟩ := bind_eq_ok h
          obtain ⟨hlength, hvalue⟩ := packFormat_eq_ok hbody
          obtain ⟨fields, hfst, hlengths, rfl, hvalues⟩ := ih (Nat.succ.inj hlen) hrest
          refine ⟨(t, body) :: fields, by rw [List.map_cons, hfst], ?_,
            (Except.ok.inj h).symm, ?_⟩
          · intro f hf
            rcases List.mem_cons.mp hf with rfl | hf
            · exact hlength
            · exact hlengths f hf
          · rw [List.map_cons, List.zipWith_cons_cons, hvalues, hvalue]

theorem encodeValues_eq_bytes {t : CollectdType} {xs : List Number} {bs : Bytes}
    (hlen : xs.length = t.dbTemplate.length) (h : t.encodeValues xs = .ok bs) :
    ∃ p : WirePart, bs = p.bytes ∧
      p.effect = fun r => { r with values := List.zipWith carried t.types xs } := by
  obtain ⟨body, hbody, h⟩ := bind_eq_ok h
  obtain ⟨fields, hfst, hlengths, rfl, hvalues⟩ :=
    packFields_eq_ok (hlen.trans t.length_types.symm) hbody
  have hcount : fields.length = t.dbTemplate.length := by
    rw [← t.length_types, ← hfst, List.length_map]
  refine ⟨.values fields hlengths (hcount ▸ t.fits), ?_, by rw [WirePart.effect, hvalues]⟩
  have hcodes : (fields.map fun f => UInt8.ofNat f.1.code) =
      t.types.map fun vt => UInt8.ofNat vt.code := by
    rw [← hfst, List.map_map]
    rfl
  rw [← Except.ok.inj h, CollectdType.messageTemplate, WirePart.bytes, WirePart.header,
    WirePart.valuesBody, hcodes, hcount]
  simp only [List.append_assoc]

/-! ### The round trip -/

/-- How a field comes back: an int in a `GAUGE` field as the nearest double, which
has the same value below `2 ^ 53`; every other number as it was. -/
inductive FieldReturned : ValueType × Number → Number → Prop
  | rounded (n : ℤ) (hexact : n.natAbs < 2 ^ 53 → (Number.float (.nearest n)).pyEq (.int n)) :
      FieldReturned (.gauge, .int n) (.float (.nearest n))
  | same {t : ValueType} {x : Number} (hother : t = .gauge → ∀ n, x ≠ .int n) :
      FieldReturned (t, x) x

theorem fieldReturned_carried (t : ValueType) (x : Number) :
    FieldReturned (t, x) (carried t x) := by
  cases t with
  | gauge =>
      cases x with
      | int n => exact .rounded n Number.pyEq_nearest
      | float x => exact .same fun _ n => nofun
  | counter => exact .same nofun
  | derive => exact .same nofun
  | absolute => exact .same nofun

theorem forall₂_zipWith_carried :
    ∀ (ts : List ValueType) (xs : List Number),
      List.Forall₂ FieldReturned (ts.zip xs) (List.zipWith carried ts xs)
  | [], _ => .nil
  | _ :: _, [] => .nil
  | t :: ts, x :: xs => .cons (fieldReturned_carried t x) (forall₂_zipWith_carried ts xs)

/-- How a `Values` object comes back from the wire. -/
structure Returned (t : CollectdType) (v : Values Number) (m : Message Number) : Prop where
  type : v.type = some m.type
  host : m.host = v.host.getD ""
  plugin : m.plugin = v.plugin.getD ""
  pluginInstance : m.pluginInstance = v.pluginInstance.getD ""
  typeInstance : m.typeInstance = v.typeInstance.getD ""
  time : v.time.map (fun q => (pyInt q : ℚ)) = some m.time
  interval : m.interval = pyInt v.interval
  values : List.Forall₂ FieldReturned (t.types.zip v.values) m.values

/-- What is packed is unpacked, with the numbers as their fields carry them. -/
theorem unpackBytes_of_packValues {types : List CollectdType} {v : Values Number} {t : CollectdType}
    {bytes : Bytes} (htype : v.type.bind (CollectdType.lookup? types) = some t)
    (hcount : v.values.length = t.dbTemplate.length) (h : packValues types v = .ok bytes) :
    ∃ m, unpackBytes types bytes = some (.ok (some m)) ∧ Returned t v m ∧
      m.values = List.zipWith carried t.types v.values := by
  obtain ⟨t', ht', h⟩ := bind_eq_ok h
  rw [typeObject, htype] at ht'
  obtain rfl := Except.ok.inj ht'
  obtain ⟨_, hhost, h⟩ := bind_eq_ok h
  obtain ⟨_, hplugin, h⟩ := bind_eq_ok h
  obtain ⟨_, hpluginInstance, h⟩ := bind_eq_ok h
  obtain ⟨_, htypePart, h⟩ := bind_eq_ok h
  obtain ⟨_, hinterval, h⟩ := bind_eq_ok h
  obtain ⟨_, htypeInstance, h⟩ := bind_eq_ok h
  obtain ⟨timestamp, htimestamp, h⟩ := bind_eq_ok h
  obtain ⟨_, htime, h⟩ := bind_eq_ok h
  obtain ⟨_, hpayload, h⟩ := bind_eq_ok h
  -- each part as a word of the grammar
  obtain ⟨p₁, rfl, heff₁⟩ := packString_eq_bytes rfl hhost
  obtain ⟨p₂, rfl, heff₂⟩ := packLong_eq_bytes rfl htime
  obtain ⟨p₃, rfl, heff₃⟩ := packString_eq_bytes rfl hplugin
  obtain ⟨p₄, rfl, heff₄⟩ := packString_eq_bytes rfl hpluginInstance
  obtain ⟨p₅, rfl, heff₅⟩ := packString_eq_bytes rfl htypePart
  obtain ⟨p₆, rfl, heff₆⟩ := packLong_eq_bytes rfl hinterval
  obtain ⟨p₇, rfl, heff₇⟩ := packString_eq_bytes rfl htypeInstance
  obtain ⟨p₈, rfl, heff₈⟩ := encodeValues_eq_bytes hcount hpayload
  have hbytes : bytes = [p₁, p₂, p₃, p₄, p₅, p₆, p₇, p₈].flatMap WirePart.bytes := by
    rw [← Except.ok.inj h]
    simp only [List.flatMap_cons, List.flatMap_nil, List.append_nil, List.append_assoc]
  obtain ⟨name, hname, hlookup⟩ := Option.bind_eq_some_iff.mp htype
  obtain rfl := CollectdType.name_of_lookup? hlookup
  obtain ⟨q, hq, rfl⟩ : ∃ q, v.time = some q ∧ pyInt q = timestamp := by
    cases hv : v.time with
    | none => rw [hv] at htimestamp; cases htimestamp
    | some q => rw [hv] at htimestamp; exact ⟨q, rfl, Except.ok.inj htimestamp⟩
  refine ⟨{
      type := t.name, typeInstance := v.typeInstance.getD "", plugin := v.plugin.getD "",
      pluginInstance := v.pluginInstance.getD "", host := v.host.getD "", time := pyInt q,
      interval := pyInt v.interval, values := List.zipWith carried t.types v.values },
    ?_, ?_, rfl⟩
  · rw [hbytes, unpackBytes, WirePart.unpackPacket_flatMap_bytes]
    simp only [List.foldl_cons, List.foldl_nil, heff₁, heff₂, heff₃, heff₄, heff₅, heff₆, heff₇,
      heff₈, Parts.setText, Parts.setNumber, Option.map_some, interpretParts, Option.bind_some,
      Option.getD_some, hlookup]
    rfl
  · exact ⟨hname, rfl, rfl, rfl, rfl, by rw [hq]; rfl, rfl, forall₂_zipWith_carried _ _⟩

/-- **The wire round trip.** A `Values` object of a registered type, with a value
for each field, either cannot be packed or comes back from the wire: its number
slots truncated, its missing strings empty, its `GAUGE` ints as doubles. -/
theorem packValues_roundTrip (types : List CollectdType) (v : Values Number) (t : CollectdType)
    (htype : v.type.bind (CollectdType.lookup? types) = some t)
    (hcount : v.values.length = t.dbTemplate.length) :
    (∃ e, packValues types v = .error e) ∨
      ∃ bytes m, packValues types v = .ok bytes ∧
        unpackBytes types bytes = some (.ok (some m)) ∧ Returned t v m := by
  cases hpack : packValues types v with
  | error e => exact Or.inl ⟨e, rfl⟩
  | ok bytes =>
      obtain ⟨m, hunpack, hreturned, _⟩ := unpackBytes_of_packValues htype hcount hpack
      exact Or.inr ⟨bytes, m, rfl, hunpack, hreturned⟩

theorem oneGauge_fits : 6 + 9 * [("value", ValueType.gauge)].length < 2 ^ 16 := by
  decide

/-- A type with one `GAUGE` field, as `count` of types.db. -/
def oneGauge : CollectdType := ⟨"count", [("value", .gauge)], oneGauge_fits⟩

theorem packValues_roundTrip_oneGauge :
    ∃ bytes m,
      packValues [oneGauge] { type := "count", time := some 7, values := [.int 3] } = .ok bytes ∧
        unpackBytes [oneGauge] bytes = some (.ok (some m)) ∧
        Returned oneGauge { type := "count", time := some 7, values := [.int 3] } m := by
  have hok : (packValues [oneGauge]
      { type := "count", time := some 7, values := [.int 3] }).toOption.isSome := by
    decide +kernel
  refine (packValues_roundTrip [oneGauge] { type := "count", time := some 7, values := [.int 3] }
    oneGauge (by decide) rfl).resolve_left ?_
  rintro ⟨e, he⟩
  rw [he] at hok
  cases hok

/-- An int of more than 53 bits does not survive a `GAUGE` field. -/
theorem packValues_gauge_inexact :
    ∃ bytes m,
      packValues [oneGauge] { type := "count", time := some 7, values := [.int (2 ^ 53 + 1)] } =
        .ok bytes ∧
      unpackBytes [oneGauge] bytes = some (.ok (some m)) ∧
      ¬List.Forall₂ Number.pyEq m.values [.int (2 ^ 53 + 1)] := by
  have hok : (packValues [oneGauge]
      { type := "count", time := some 7, values := [.int (2 ^ 53 + 1)] }).toOption.isSome := by
    decide +kernel
  cases hpack : packValues [oneGauge]
      { type := "count", time := some 7, values := [.int (2 ^ 53 + 1)] } with
  | error e => rw [hpack] at hok; cases hok
  | ok bytes =>
      obtain ⟨m, hunpack, -, hvalues⟩ :=
        unpackBytes_of_packValues (t := oneGauge) (by decide) rfl hpack
      refine ⟨bytes, m, rfl, hunpack, fun hequal => ?_⟩
      rw [hvalues] at hequal
      cases hequal with
      | cons h _ => exact absurd h.1 (by decide +kernel)

end SqlalchemyCollectd
