import SqlalchemyCollectd.Protocol.Termination

/-!
# SqlalchemyCollectd.Protocol.Wire

The grammar of well-formed datagrams, as an abstract layer over the decoder.

A `WirePart` is a part whose declared length is the length it has, with the
conditions on its content in the constructors, so an ill-formed one cannot be
built. It has a spelling (`bytes`) and a meaning (`effect`, what it does to the
decoded result). The decoder refines this reading: whatever follows a part, one
iteration consumes exactly its bytes and has its effect
(`WirePart.unpackHead_bytes`), so a concatenation of parts decodes to the
composition of their effects (`unpackPacket_flatMap_bytes`).
-/

namespace SqlalchemyCollectd

open Struct

namespace PartType

/-- The codes that `_receivers` sends to `_unpack_string`. -/
def isText : PartType → Bool
  | host | plugin | pluginInstance | type | typeInstance => true
  | time | values | interval => false

/-- The codes that `_receivers` sends to `_unpack_long`. -/
def isNumber : PartType → Bool
  | time | interval => true
  | host | plugin | pluginInstance | type | typeInstance | values => false

theorem eq_values {t : PartType} (htext : ¬t.isText) (hnumber : ¬t.isNumber) : t = .values := by
  cases t <;> first | rfl | exact absurd rfl htext | exact absurd rfl hnumber

theorem code_lt (t : PartType) : t.code < 8 := by
  cases t <;> decide

end PartType

namespace Parts

/-- Assignment to a string slot. -/
def setText (slot : PartType) (s : String) (r : Parts) : Parts :=
  match slot with
  | .host => { r with host := s }
  | .plugin => { r with plugin := s }
  | .pluginInstance => { r with pluginInstance := s }
  | .type => { r with type := s }
  | .typeInstance => { r with typeInstance := s }
  | .time | .values | .interval => r

/-- Assignment to a number slot. -/
def setNumber (slot : PartType) (n : ℤ) (r : Parts) : Parts :=
  match slot with
  | .time => { r with time := n }
  | .interval => { r with interval := n }
  | .host | .plugin | .pluginInstance | .type | .typeInstance | .values => r

end Parts

theorem PartType.receive_text {slot : PartType} (h : slot.isText) (length : ℕ) (buf : Bytes) :
    slot.receive length buf = do
      let value ← unpackString length buf
      return Parts.setText slot value := by
  cases slot <;> first | rfl | cases h

theorem PartType.receive_number {slot : PartType} (h : slot.isNumber) (length : ℕ) (buf : Bytes) :
    slot.receive length buf = do
      let value ← unpackLong buf
      return Parts.setNumber slot value := by
  cases slot <;> first | rfl | cases h

/-! ### Parts -/

/-- The string with the given ASCII bytes. -/
def asciiString (content : Bytes) : String := String.ofList (content.map fun b => Char.ofNat b.toNat)

/-- The number with the given eight bytes. -/
def fieldValue : ValueType → Bytes → Number
  | .counter, body => .int (beNat body)
  | .absolute, body => .int (beNat body)
  | .derive, body => .int ((beNat body : ℤ).bmod (256 ^ 8))
  | .gauge, body => .float (Float.ofBits (UInt64.ofNat (beNat body.reverse)))

/-- A well-formed part. -/
inductive WirePart
  /-- Content and a final NUL. -/
  | text (slot : PartType) (content : Bytes) (hslot : slot.isText)
      (ascii : ∀ b ∈ content, b.toNat < 128) (fits : 5 + content.length < 2 ^ 16)
  | number (slot : PartType) (body : Bytes) (hslot : slot.isNumber) (hbody : body.length = 8)
  | values (fields : List (ValueType × Bytes)) (hbody : ∀ f ∈ fields, f.2.length = 8)
      (fits : 6 + 9 * fields.length < 2 ^ 16)
  /-- A part of a code that the decoder does not know. -/
  | unknown (code : ℕ) (body : Bytes) (hcode : PartType.ofCode? code = none)
      (hlt : code < 2 ^ 16) (fits : 4 + body.length < 2 ^ 16)

namespace WirePart

/-- A header, for a code and a length below `2 ^ 16`. -/
def header (code length : ℕ) : Bytes := beBytes 2 code ++ beBytes 2 length

/-- The bytes of a values part after its header. -/
def valuesBody (fields : List (ValueType × Bytes)) : Bytes :=
  beBytes 2 fields.length ++ (fields.map fun f => UInt8.ofNat f.1.code) ++
    fields.flatMap Prod.snd

/-- The bytes of a part. -/
def bytes : WirePart → Bytes
  | text slot content _ _ _ => header slot.code (5 + content.length) ++ (content ++ [0])
  | number slot body _ _ => header slot.code 12 ++ body
  | values fields _ _ => header PartType.values.code (6 + 9 * fields.length) ++ valuesBody fields
  | unknown code body _ _ _ => header code (4 + body.length) ++ body

/-- What a part does to the decoded result. -/
def effect : WirePart → Parts → Parts
  | text slot content _ _ _ => Parts.setText slot (asciiString content)
  | number slot body _ _ => Parts.setNumber slot ((beNat body : ℤ).bmod (256 ^ 8))
  | values fields _ _ => fun r => { r with values := fields.map fun f => fieldValue f.1 f.2 }
  | unknown _ _ _ _ _ => id

/-! ### Headers -/

@[simp] theorem length_header (code length : ℕ) : (header code length).length = 4 := by
  simp [header]

theorem unpackHeader_header {code length : ℕ} (hcode : code < 2 ^ 16) (hlength : length < 2 ^ 16)
    (rest : Bytes) : unpackHeader (header code length ++ rest) = .ok (code, length) := by
  have hfst : unpackUnsigned 2 (header code length ++ rest) = some code := by
    rw [header, List.append_assoc, unpackUnsigned, takeExact_append (length_beBytes 2 code),
      Option.map_some, beNat_beBytes_of_lt hcode]
  have hsnd : unpackUnsigned 2 ((header code length ++ rest).drop 2) = some length := by
    rw [header, List.append_assoc, List.drop_left' (length_beBytes 2 code), unpackUnsigned,
      takeExact_append (length_beBytes 2 length), Option.map_some, beNat_beBytes_of_lt hlength]
  unfold unpackHeader
  rw [hfst, hsnd]
  rfl

theorem drop_header (code length : ℕ) (rest : Bytes) :
    (header code length ++ rest).drop 4 = rest :=
  List.drop_left' (length_header code length)

/-! ### Text parts -/

theorem slice_text {code : ℕ} {content rest : Bytes} :
    slice (header code (5 + content.length) ++ (content ++ [0]) ++ rest) 4
      (((5 + content.length : ℕ) : ℤ) - 1) = content := by
  have hstop : (((5 + content.length : ℕ) : ℤ) - 1).toNat = 4 + content.length := by omega
  unfold slice
  rw [if_neg (by omega), hstop, List.append_assoc, List.append_assoc, List.take_append,
    length_header, List.take_of_length_le (by rw [length_header]; omega), Nat.add_sub_cancel_left,
    List.take_left, drop_header]

theorem decodeAscii_of_ascii {content : Bytes} (h : ∀ b ∈ content, b.toNat < 128) :
    decodeAscii content = .ok (asciiString content) := by
  unfold decodeAscii
  rw [if_pos (List.all_eq_true.mpr fun b hb => by simpa using h b hb)]
  rfl

/-! ### Values parts -/

theorem unpackFormat_fieldValue (t : ValueType) {body : Bytes} (h : body.length = 8)
    (rest : Bytes) : unpackFormat t (body ++ rest) = .ok (fieldValue t body) := by
  unfold unpackFormat
  cases t <;>
    simp only [unpackUnsigned, unpackSigned, unpackDouble, takeExact_append h, Option.map_some,
      structCall, fieldValue]

/-- The loop over the fields, with the codes and the bodies still to be read. -/
theorem unpackFields_eq {buf : Bytes} (fields : List (ValueType × Bytes)) :
    ∀ (codePos valuesPos : ℕ) (restCodes restBodies : Bytes),
      (∀ f ∈ fields, f.2.length = 8) →
      buf.drop codePos = (fields.map fun f => UInt8.ofNat f.1.code) ++ restCodes →
      buf.drop valuesPos = fields.flatMap Prod.snd ++ restBodies →
      unpackFields buf fields.length codePos valuesPos =
        .ok (fields.map fun f => fieldValue f.1 f.2) := by
  induction fields with
  | nil => intros; rfl
  | cons f fields ih =>
      intro codePos valuesPos restCodes restBodies hbody hcodes hbodies
      obtain ⟨t, body⟩ := f
      have hlen : body.length = 8 := hbody (t, body) List.mem_cons_self
      have hcode : unpackUnsigned 1 (buf.drop codePos) = some t.code := by
        rw [hcodes, List.map_cons, List.cons_append]
        cases t <;> rfl
      have hvalue : unpackFormat t (buf.drop valuesPos) = .ok (fieldValue t body) := by
        rw [hbodies, List.flatMap_cons, List.append_assoc, unpackFormat_fieldValue t hlen]
      have hrest := ih (codePos + 1) (valuesPos + 8) restCodes restBodies
        (fun f hf => hbody f (List.mem_cons_of_mem _ hf))
        (by rw [← List.drop_drop, hcodes, List.map_cons, List.cons_append]; rfl)
        (by rw [← List.drop_drop, hbodies, List.flatMap_cons, List.append_assoc,
              List.drop_left' hlen])
      rw [List.length_cons, unpackFields, hcode]
      simp only [structCall, bind, Except.bind, pure, Except.pure, ValueType.ofCode?_code, hvalue,
        hrest, List.map_cons]

theorem unpackValues_eq {code length : ℕ} {fields : List (ValueType × Bytes)}
    (hbody : ∀ f ∈ fields, f.2.length = 8) (fits : 6 + 9 * fields.length < 2 ^ 16)
    (rest : Bytes) :
    unpackValues (header code length ++ valuesBody fields ++ rest) =
      .ok (fields.map fun f => fieldValue f.1 f.2) := by
  have hnum : unpackUnsigned 2 ((header code length ++ valuesBody fields ++ rest).drop 4) =
      some fields.length := by
    rw [List.append_assoc, drop_header, valuesBody, List.append_assoc, List.append_assoc,
      unpackUnsigned, takeExact_append (length_beBytes 2 _), Option.map_some,
      beNat_beBytes_of_lt (by omega)]
  have hcodes : (header code length ++ valuesBody fields ++ rest).drop 6 =
      (fields.map fun f => UInt8.ofNat f.1.code) ++ (fields.flatMap Prod.snd ++ rest) := by
    rw [show 6 = 4 + 2 from rfl, ← List.drop_drop, List.append_assoc, drop_header, valuesBody,
      List.append_assoc, List.append_assoc, List.drop_left' (length_beBytes 2 _)]
  unfold unpackValues
  rw [hnum]
  refine unpackFields_eq fields 6 (6 + fields.length) _ rest hbody hcodes ?_
  rw [← List.drop_drop, hcodes, List.drop_left' (List.length_map _)]

/-! ### One part, then a whole datagram -/

@[simp] theorem length_bytes_text (slot content hslot ascii fits) :
    (text slot content hslot ascii fits).bytes.length = 5 + content.length := by
  simp only [bytes, List.length_append, length_header, List.length_singleton]
  omega

@[simp] theorem length_bytes_number (slot body hslot hbody) :
    (number slot body hslot hbody).bytes.length = 12 := by
  simp only [bytes, List.length_append, length_header, hbody]

@[simp] theorem length_bytes_values (fields hbody fits) :
    (values fields hbody fits).bytes.length = 6 + 9 * fields.length := by
  have hsum : (fields.map fun f => f.2.length).sum = fields.length * 8 := by
    rw [List.map_congr_left hbody, List.map_const', List.sum_replicate_nat]
  simp only [bytes, valuesBody, List.length_append, length_header, length_beBytes,
    List.length_map, List.length_flatMap, hsum]
  omega

@[simp] theorem length_bytes_unknown (code body hcode hlt fits) :
    (unknown code body hcode hlt fits).bytes.length = 4 + body.length := by
  simp only [bytes, List.length_append, length_header]

theorem length_bytes_pos (p : WirePart) : 0 < p.bytes.length := by
  cases p <;> simp

/-- A known part whose handler does not raise. -/
theorem unpackHead_of_receive {slot : PartType} {length : ℕ} {body : Bytes} {store : Parts → Parts}
    (hlength : length < 2 ^ 16)
    (h : slot.receive length (header slot.code length ++ body) = .ok store) :
    unpackHead (header slot.code length ++ body) = .ok (length, store) := by
  unfold unpackHead
  rw [unpackHeader_header (slot.code_lt.trans (by norm_num)) hlength]
  simp only [bind, Except.bind, PartType.ofCode?_code, h]
  rfl

/-- **One iteration on a well-formed part** consumes its bytes and has its effect,
whatever follows. -/
theorem unpackHead_bytes (p : WirePart) (rest : Bytes) :
    unpackHead (p.bytes ++ rest) = .ok (p.bytes.length, p.effect) := by
  cases p with
  | text slot content hslot ascii fits =>
      rw [length_bytes_text, bytes, List.append_assoc]
      refine unpackHead_of_receive fits ?_
      rw [PartType.receive_text hslot, ← List.append_assoc, unpackString, slice_text,
        decodeAscii_of_ascii ascii]
      rfl
  | number slot body hslot hbody =>
      rw [length_bytes_number, bytes, List.append_assoc]
      refine unpackHead_of_receive (by norm_num) ?_
      rw [PartType.receive_number hslot, unpackLong, drop_header, unpackSigned,
        takeExact_append hbody]
      rfl
  | values fields hbody fits =>
      rw [length_bytes_values, bytes, List.append_assoc]
      refine unpackHead_of_receive fits ?_
      rw [PartType.receive, ← List.append_assoc, unpackValues_eq hbody fits]
      rfl
  | unknown code body hcode hlt fits =>
      rw [length_bytes_unknown, bytes, List.append_assoc]
      unfold unpackHead
      rw [unpackHeader_header hlt fits]
      simp only [bind, Except.bind, hcode]
      rfl

/-- The part loop on parts still to be read. -/
theorem unpackLoop_flatMap_bytes {buf : Bytes} (parts : List WirePart) :
    ∀ {s : PacketState}, buf.drop s.pos = parts.flatMap bytes →
      unpackLoop buf parts.length s =
        some (.ok (parts.foldl (fun r p => p.effect r) s.result)) := by
  induction parts with
  | nil =>
      intro s hs
      exact unpackLoop_done (List.drop_eq_nil_iff.mp hs) 0
  | cons p parts ih =>
      intro s hs
      have hhead : unpackHead (buf.drop s.pos) = .ok (p.bytes.length, p.effect) := by
        rw [hs, List.flatMap_cons, unpackHead_bytes]
      have hpos : s.pos < buf.length := by
        have hlen := congrArg List.length hs
        rw [List.length_drop, List.flatMap_cons, List.length_append] at hlen
        have := p.length_bytes_pos
        omega
      rw [List.length_cons, unpackLoop_ok hpos hhead]
      exact ih (by rw [← List.drop_drop, hs, List.flatMap_cons, List.drop_left])

/-- **A concatenation of well-formed parts decodes** to the composition of their
effects. -/
theorem unpackPacket_flatMap_bytes (parts : List WirePart) :
    unpackPacket (parts.flatMap bytes) =
      some (.ok (parts.foldl (fun r p => p.effect r) {})) :=
  unpackPacket_of_unpackLoop (unpackLoop_flatMap_bytes parts rfl)

end WirePart

end SqlalchemyCollectd
