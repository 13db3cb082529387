import SqlalchemyCollectd.Lib.Struct
import SqlalchemyCollectd.Protocol.Values

/-!
# SqlalchemyCollectd.Protocol.Packer

`MessagePacker`: a `Values` object as a collectd datagram.

A datagram is eight parts, each with a two-byte code and a two-byte length. The
string parts go through `packString`, the two number parts are struct literals,
and the values part is the precomputed template of the type followed by one
eight-byte field for each value.
-/

namespace SqlalchemyCollectd

open Struct

/-- The part codes `TYPE_HOST` … `TYPE_INTERVAL`. -/
inductive PartType
  | host
  | time
  | plugin
  | pluginInstance
  | type
  | typeInstance
  | values
  | interval
  deriving DecidableEq, Repr

namespace PartType

def code : PartType → ℕ
  | host => 0x0000
  | time => 0x0001
  | plugin => 0x0002
  | pluginInstance => 0x0003
  | type => 0x0004
  | typeInstance => 0x0005
  | values => 0x0006
  | interval => 0x0007

/-- The key lookup in `MessageUnpacker._receivers`. -/
def ofCode? : ℕ → Option PartType
  | 0x0000 => some host
  | 0x0001 => some time
  | 0x0002 => some plugin
  | 0x0003 => some pluginInstance
  | 0x0004 => some type
  | 0x0005 => some typeInstance
  | 0x0006 => some values
  | 0x0007 => some interval
  | _ => none

@[simp] theorem ofCode?_code (t : PartType) : ofCode? t.code = some t := by
  cases t <;> rfl

end PartType

/-- A `struct` call: `struct.error` when the value does not fit its format. -/
def structCall {β : Type} : Option β → Except PyError β
  | some b => .ok b
  | none => .error .structError

/-- `header.pack(typecode, length)`, format `!HH`. -/
def packHeader (typecode : PartType) (length : ℕ) : Except PyError Bytes := do
  let code ← structCall (packUnsigned 2 typecode.code)
  let len ← structCall (packUnsigned 2 length)
  return code ++ len

/-- `value.encode("ascii")`. -/
def encodeAscii (value : String) : Except PyError Bytes :=
  if value.toList.all (·.toNat < 128) then
    .ok (value.toList.map fun c => UInt8.ofNat c.toNat)
  else .error .unicodeError

/-- `MessagePacker._pack_string`. -/
def packString (typecode : PartType) (value : Option String) : Except PyError Bytes := do
  let value := value.getD ""
  let head ← packHeader typecode (5 + value.length)
  let body ← encodeAscii value
  return head ++ body ++ [0]

/-- A part that holds one number, formats `!HH` and `!q`: the header says 12. -/
def packLong (typecode : PartType) (n : ℤ) : Except PyError Bytes := do
  let head ← packHeader typecode 12
  let body ← structCall (packSigned 8 n)
  return head ++ body

/-- `_value_formats[value_type].pack`: `!Q` and `!q` refuse a float, `<d` takes an
int through `float()` and reports one that is too large as any other error of `struct`. -/
def packFormat : ValueType → Number → Except PyError Bytes
  | .counter, .int n => structCall (packUnsigned 8 n)
  | .absolute, .int n => structCall (packUnsigned 8 n)
  | .derive, .int n => structCall (packSigned 8 n)
  | .gauge, .float x => .ok (packDouble x)
  | .gauge, .int n =>
      if (Float.nearest n).isInf then .error .structError else .ok (packDouble (Float.nearest n))
  | _, .float _ => .error .structError

/-- `Type._message_template`: header, number of values, one code for each. Its
length field fits because the type was built. -/
def CollectdType.messageTemplate (t : CollectdType) : Bytes :=
  beBytes 2 PartType.values.code ++ beBytes 2 (6 + 9 * t.dbTemplate.length) ++
    beBytes 2 t.dbTemplate.length ++ t.types.map fun vt => UInt8.ofNat vt.code

/-- The values written one after the other, `zip` cutting the longer list. -/
def packFields : List ValueType → List Number → Except PyError Bytes
  | vt :: vts, x :: xs => do
      let field ← packFormat vt x
      let rest ← packFields vts xs
      return field ++ rest
  | _, _ => .ok []

/-- `Type._encode_values`. -/
def CollectdType.encodeValues (t : CollectdType) (values : List Number) : Except PyError Bytes := do
  let fields ← packFields t.types values
  return t.messageTemplate ++ fields

/-- `self.types[values.type]`, with the `TypeError` that replaces its `KeyError`. -/
def typeObject (types : List CollectdType) (name : Option String) : Except PyError CollectdType :=
  match name.bind (CollectdType.lookup? types) with
  | some t => .ok t
  | none => .error (.unknownType name)

/-- `int(timestamp)`, where `int(None)` is a `TypeError`. -/
def intTimestamp : Option ℚ → Except PyError ℤ
  | some t => .ok (pyInt t)
  | none => .error .typeError

/-- `MessagePacker.pack_values`, for the packer built with `types`. -/
def packValues (types : List CollectdType) (v : Values Number) : Except PyError Bytes := do
  let typeObj ← typeObject types v.type
  let hostPart ← packString .host v.host
  let pluginPart ← packString .plugin v.plugin
  let pluginInstancePart ← packString .pluginInstance v.pluginInstance
  let typePart ← packString .type typeObj.name
  let intervalPart ← packLong .interval (pyInt v.interval)
  let typeInstancePart ← packString .typeInstance v.typeInstance
  let timestamp ← intTimestamp v.time
  let timePart ← packLong .time timestamp
  let payload ← typeObj.encodeValues v.values
  return hostPart ++ timePart ++ pluginPart ++ pluginInstancePart ++ typePart ++ intervalPart ++
    typeInstancePart ++ payload

end SqlalchemyCollectd
