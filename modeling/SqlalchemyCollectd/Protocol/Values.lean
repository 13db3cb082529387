import SqlalchemyCollectd.Python

/-!
# SqlalchemyCollectd.Protocol.Values

The data model of the collectd protocol: data-source codes, `Type` objects and
`Values` objects.

A `CollectdType` carries the one thing its constructor checks, that the length of
its values part fits the 16-bit length field, so a type too long to be written
cannot be built. `Values` is generic in its numbers: the receiver only ever adds
them, and only the wire format cares which of them are floats.
-/

namespace SqlalchemyCollectd

/-- `DEFAULT_INTERVAL`. -/
def defaultInterval : ℚ := 10

/-- The data-source kinds of collectd. -/
inductive ValueType
  | counter
  | gauge
  | derive
  | absolute
  deriving DecidableEq, Repr

namespace ValueType

/-- `VALUE_COUNTER`, `VALUE_GAUGE`, `VALUE_DERIVE`, `VALUE_ABSOLUTE`. -/
def code : ValueType → ℕ
  | counter => 0
  | gauge => 1
  | derive => 2
  | absolute => 3

/-- The key lookup in `_value_formats`. -/
def ofCode? : ℕ → Option ValueType
  | 0 => some counter
  | 1 => some gauge
  | 2 => some derive
  | 3 => some absolute
  | _ => none

@[simp] theorem ofCode?_code (t : ValueType) : ofCode? t.code = some t := by
  cases t <;> rfl

theorem code_lt (t : ValueType) : t.code < 4 := by
  cases t <;> decide

end ValueType

/-- `protocol.Type`: a collectd type and its data template. -/
structure CollectdType where
  name : String
  dbTemplate : List (String × ValueType)
  /-- `header.pack(TYPE_VALUES, 6 + 9 * len(db_template))` did not raise. -/
  fits : 6 + 9 * dbTemplate.length < 2 ^ 16
  deriving DecidableEq

namespace CollectdType

/-- `Type.names`. -/
def names (t : CollectdType) : List String := t.dbTemplate.map Prod.fst

/-- `Type.types`. -/
def types (t : CollectdType) : List ValueType := t.dbTemplate.map Prod.snd

@[simp] theorem length_types (t : CollectdType) : t.types.length = t.dbTemplate.length :=
  List.length_map ..

@[simp] theorem length_names (t : CollectdType) : t.names.length = t.dbTemplate.length :=
  List.length_map ..

/-- The dictionary `{type_.name: type_ for type_ in types}` at a name: of two
types with one name the later counts. -/
def lookup? (types : List CollectdType) (name : String) : Option CollectdType :=
  types.reverse.find? fun t => t.name = name

theorem name_of_lookup? {types : List CollectdType} {name : String} {t : CollectdType}
    (h : lookup? types name = some t) : t.name = name := by
  simpa using List.find?_some h

end CollectdType

/-- `protocol.Values`, a mirror of `collectd.Values`. A slot that the constructor
leaves out is `None`, except the interval, which gets the default. -/
structure Values (α : Type) where
  type : Option String := none
  typeInstance : Option String := none
  plugin : Option String := none
  pluginInstance : Option String := none
  host : Option String := none
  time : Option ℚ := none
  interval : ℚ := defaultInterval
  values : List α := []
  deriving DecidableEq

namespace Values

variable {α : Type}

/-- A slot of a sum keeps what both sides agree on. -/
def coalesce {β : Type} [DecidableEq β] (a b : Option β) : Option β := if a = b then a else none

@[simp] theorem coalesce_self {β : Type} [DecidableEq β] (a : Option β) : coalesce a a = a :=
  if_pos rfl

section Add

variable [Add α]

/-- `Values.__add__` of two `Values`. Slots that differ become `None`, which the
constructor turns into the default for the interval. -/
def add (self other : Values α) : Values α where
  type := coalesce self.type other.type
  typeInstance := coalesce self.typeInstance other.typeInstance
  plugin := coalesce self.plugin other.plugin
  pluginInstance := coalesce self.pluginInstance other.pluginInstance
  host := coalesce self.host other.host
  time := coalesce self.time other.time
  interval := if self.interval = other.interval then self.interval else defaultInterval
  values := List.zipWith (· + ·) self.values other.values

/-- `Values.__add__` and `Values.__radd__` with a number. -/
def addNumber (self : Values α) (other : α) : Values α :=
  { self with values := self.values.map (· + other) }

/-- `sum([first, *rest])`, which starts from the int `0`. -/
def sum [Zero α] (first : Values α) (rest : List (Values α)) : Values α :=
  rest.foldl add (first.addNumber 0)

end Add

end Values

/-- A message: `Values` with every slot filled, the only ones that
`MessageUnpacker.unpack_bytes` builds. -/
structure Message (α : Type) where
  type : String
  typeInstance : String
  plugin : String
  pluginInstance : String
  host : String
  time : ℚ
  interval : ℚ
  values : List α
  deriving DecidableEq

/-- The `Values` object a message is. -/
def Message.toValues {α : Type} (m : Message α) : Values α where
  type := m.type
  typeInstance := m.typeInstance
  plugin := m.plugin
  pluginInstance := m.pluginInstance
  host := m.host
  time := m.time
  interval := m.interval
  values := m.values

end SqlalchemyCollectd
