import SqlalchemyCollectd.Protocol.Packer

/-!
# SqlalchemyCollectd.Protocol.Unpacker

`MessageUnpacker`: a datagram back as a `Values` object.

The part loop of `_unpack_packet` moves by the length that each part declares,
so it need not terminate; it is modelled with fuel, `none` meaning that it is
still running when the fuel is used up. Each handler is given the buffer from the
start of its part to the *end of the datagram*: only `unpackString` looks at the
declared length.
-/

namespace SqlalchemyCollectd

open Struct

/-- `buf[start:stop]`, where a negative `stop` counts from the end. -/
def slice (buf : Bytes) (start : ℕ) (stop : ℤ) : Bytes :=
  (buf.take (if stop < 0 then stop + buf.length else stop).toNat).drop start

/-- `bytes.decode("ascii")`. -/
def decodeAscii (bs : Bytes) : Except PyError String :=
  if bs.all (·.toNat < 128) then .ok (String.ofList (bs.map fun b => Char.ofNat b.toNat))
  else .error .unicodeError

/-- `header.unpack_from(buf, 0)`, format `!HH`. -/
def unpackHeader (buf : Bytes) : Except PyError (ℕ × ℕ) := do
  let typecode ← structCall (unpackUnsigned 2 buf)
  let length ← structCall (unpackUnsigned 2 (buf.drop 2))
  return (typecode, length)

/-! ### The handlers -/

/-- `MessageUnpacker._unpack_long`; `header.size` is 4. -/
def unpackLong (buf : Bytes) : Except PyError ℤ := structCall (unpackSigned 8 (buf.drop 4))

/-- `MessageUnpacker._unpack_string`. -/
def unpackString (length : ℕ) (buf : Bytes) : Except PyError String :=
  decodeAscii (slice buf 4 ((length : ℤ) - 1))

/-- `_value_formats[value_type].unpack_from`. -/
def unpackFormat (t : ValueType) (buf : Bytes) : Except PyError Number :=
  structCall <| match t with
    | .counter => (unpackUnsigned 8 buf).map fun n : ℕ => .int n
    | .absolute => (unpackUnsigned 8 buf).map fun n : ℕ => .int n
    | .derive => (unpackSigned 8 buf).map .int
    | .gauge => (unpackDouble buf).map .float

/-- The `for` loop of `_unpack_values`: `codePos` is `types_start + pos`. -/
def unpackFields (buf : Bytes) : ℕ → ℕ → ℕ → Except PyError (List Number)
  | 0, _, _ => .ok []
  | num + 1, codePos, valuesPos => do
      let valueType ← structCall (unpackUnsigned 1 (buf.drop codePos))
      let format ← match ValueType.ofCode? valueType with
        | some t => .ok t
        | none => .error .keyError
      let value ← unpackFormat format (buf.drop valuesPos)
      let rest ← unpackFields buf num (codePos + 1) (valuesPos + 8)
      return value :: rest

/-- `MessageUnpacker._unpack_values`. -/
def unpackValues (buf : Bytes) : Except PyError (List Number) := do
  let num ← structCall (unpackUnsigned 2 (buf.drop 4))
  unpackFields buf num 6 (6 + num)

/-! ### The part loop -/

/-- The dictionary `result` of `_unpack_packet`, one slot for each known code. -/
structure Parts where
  host : Option String := none
  time : Option ℤ := none
  plugin : Option String := none
  pluginInstance : Option String := none
  type : Option String := none
  typeInstance : Option String := none
  values : Option (List Number) := none
  interval : Option ℤ := none
  deriving DecidableEq

/-- `value = fn(type_, len_, buf[pos:])` with the handler that `_receivers` has for
the code, followed by `result[type_] = value`. -/
def PartType.receive (type_ : PartType) (length : ℕ) (buf : Bytes) :
    Except PyError (Parts → Parts) :=
  match type_ with
  | .host => do
      let value ← unpackString length buf
      return fun result => { result with host := value }
  | .time => do
      let value ← unpackLong buf
      return fun result => { result with time := value }
  | .plugin => do
      let value ← unpackString length buf
      return fun result => { result with plugin := value }
  | .pluginInstance => do
      let value ← unpackString length buf
      return fun result => { result with pluginInstance := value }
  | .type => do
      let value ← unpackString length buf
      return fun result => { result with type := value }
  | .typeInstance => do
      let value ← unpackString length buf
      return fun result => { result with typeInstance := value }
  | .values => do
      let value ← unpackValues buf
      return fun result => { result with values := value }
  | .interval => do
      let value ← unpackLong buf
      return fun result => { result with interval := value }

/-- The part at the head of a buffer: its declared length and what it does to the
result. A part with an unknown code is skipped with a warning. -/
def unpackHead (buf : Bytes) : Except PyError (ℕ × (Parts → Parts)) := do
  let (type_, length) ← unpackHeader buf
  match PartType.ofCode? type_ with
  | some t => do
      let store ← t.receive length buf
      return (length, store)
  | none => return (length, id)

/-- Where the part loop stands. -/
structure PacketState where
  pos : ℕ := 0
  result : Parts := {}
  deriving DecidableEq

/-- One iteration of the part loop. -/
def unpackPart (buf : Bytes) (s : PacketState) : Except PyError PacketState := do
  let (length, store) ← unpackHead (buf.drop s.pos)
  return { pos := s.pos + length, result := store s.result }

/-- `while pos < length` of `_unpack_packet`, for at most `fuel` iterations. -/
def unpackLoop (buf : Bytes) : ℕ → PacketState → Option (Except PyError Parts)
  | fuel, s =>
      if s.pos < buf.length then
        match fuel with
        | 0 => none
        | fuel + 1 =>
            match unpackPart buf s with
            | .ok s' => unpackLoop buf fuel s'
            | .error e => some (.error e)
      else some (.ok s.result)

/-- `MessageUnpacker._unpack_packet`. A loop that outlasts one iteration for each
byte never ends, see `Protocol.Termination`. -/
def unpackPacket (buf : Bytes) : Option (Except PyError Parts) :=
  unpackLoop buf buf.length {}

/-- `result[key]`. -/
def lookupPart {β : Type} : Option β → Except PyError β
  | some b => .ok b
  | none => .error .keyError

/-- `MessageUnpacker._to_value`, in the order in which it reads the slots. -/
def toValue (result : Parts) : Except PyError (Message Number) := do
  let host ← lookupPart result.host
  let time ← lookupPart result.time
  let plugin ← lookupPart result.plugin
  let pluginInstance ← lookupPart result.pluginInstance
  let type ← lookupPart result.type
  let typeInstance ← lookupPart result.typeInstance
  let values ← lookupPart result.values
  let interval ← lookupPart result.interval
  return { type, typeInstance, plugin, pluginInstance, host, time, interval, values }

/-- What `unpack_bytes` makes of the parts: `none` for a datagram it reports and
skips, because it has no type part or names a type that is not registered. -/
def interpretParts (types : List CollectdType) (result : Parts) :
    Except PyError (Option (Message Number)) :=
  match result.type.bind (CollectdType.lookup? types) with
  | some _ => do return some (← toValue result)
  | none => .ok none

/-- `MessageUnpacker.unpack_bytes`, for the unpacker built with `types`; the outer
`none` is a call that never returns. -/
def unpackBytes (types : List CollectdType) (buf : Bytes) :
    Option (Except PyError (Option (Message Number))) :=
  (unpackPacket buf).map fun
    | .ok result => interpretParts types result
    | .error e => .error e

end SqlalchemyCollectd
