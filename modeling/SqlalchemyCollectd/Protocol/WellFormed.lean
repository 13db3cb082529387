import SqlalchemyCollectd.Protocol.Wire

/-!
# SqlalchemyCollectd.Protocol.WellFormed

What a well-formed datagram decodes to.

The parts of a datagram are assignments to the slots of the result, so of several
parts of one kind the last one counts, and nothing else about their order does
(`foldl_effect`). A datagram that fills every slot and names a registered type is a
message with these contents (`unpackBytes_wellFormed`).
-/

namespace SqlalchemyCollectd

open Struct

namespace WirePart

/-- The kind of a part, if the decoder knows it. -/
def kind : WirePart → Option PartType
  | text slot _ _ _ _ => some slot
  | number slot _ _ _ => some slot
  | values _ _ _ => some .values
  | unknown _ _ _ _ _ => none

/-- The content of a string part. -/
def textContent : WirePart → Option String
  | text _ content _ _ _ => some (asciiString content)
  | _ => none

/-- The content of a number part. -/
def numberContent : WirePart → Option ℤ
  | number _ body _ _ => some ((beNat body : ℤ).bmod (256 ^ 8))
  | _ => none

/-- The content of a values part. -/
def valuesContent : WirePart → Option (List Number)
  | values fields _ _ => some (fields.map fun f => fieldValue f.1 f.2)
  | _ => none

/-- The parts of one kind, in order. -/
def ofKind (slot : PartType) (parts : List WirePart) : List WirePart :=
  parts.filter fun p => p.kind = some slot

/-- The last part of a kind. -/
def lastOf (slot : PartType) (parts : List WirePart) : Option WirePart :=
  (ofKind slot parts).getLast?

theorem lastOf_append (slot : PartType) (parts : List WirePart) (p : WirePart) :
    lastOf slot (parts ++ [p]) = if p.kind = some slot then some p else lastOf slot parts := by
  unfold lastOf ofKind
  rw [List.filter_append]
  by_cases h : p.kind = some slot
  · simp [h]
  · simp [h]

/-- The slots as the last part of each kind fills them. -/
def contents (parts : List WirePart) : Parts where
  host := (lastOf .host parts).bind textContent
  time := (lastOf .time parts).bind numberContent
  plugin := (lastOf .plugin parts).bind textContent
  pluginInstance := (lastOf .pluginInstance parts).bind textContent
  type := (lastOf .type parts).bind textContent
  typeInstance := (lastOf .typeInstance parts).bind textContent
  values := (lastOf .values parts).bind valuesContent
  interval := (lastOf .interval parts).bind numberContent

/-- **The last part of each kind counts.** -/
theorem foldl_effect (parts : List WirePart) :
    parts.foldl (fun r p => p.effect r) {} = contents parts := by
  induction parts using List.reverseRecOn with
  | nil => rfl
  | append_singleton parts p ih =>
      rw [List.foldl_append, List.foldl_cons, List.foldl_nil, ih]
      unfold contents
      simp only [lastOf_append]
      cases p with
      | text slot content hslot ascii fits =>
          cases slot <;> first | rfl | exact absurd hslot (by decide)
      | number slot body hslot hbody =>
          cases slot <;> first | rfl | exact absurd hslot (by decide)
      | values fields hbody fits => rfl
      | unknown code body hcode hlt fits => rfl

/-- A part of a string kind has a string. -/
theorem exists_textContent {p : WirePart} {slot : PartType} (hkind : p.kind = some slot)
    (hslot : slot.isText) : ∃ s, p.textContent = some s := by
  cases p with
  | text => exact ⟨_, rfl⟩
  | number slot' body hslot' hbody =>
      obtain rfl := Option.some.inj hkind
      cases slot' <;> first | exact absurd hslot (by decide) | exact absurd hslot' (by decide)
  | values =>
      obtain rfl := Option.some.inj hkind
      exact absurd hslot (by decide)
  | unknown => cases hkind

theorem exists_numberContent {p : WirePart} {slot : PartType} (hkind : p.kind = some slot)
    (hslot : slot.isNumber) : ∃ n, p.numberContent = some n := by
  cases p with
  | number => exact ⟨_, rfl⟩
  | text slot' content hslot' ascii fits =>
      obtain rfl := Option.some.inj hkind
      cases slot' <;> first | exact absurd hslot (by decide) | exact absurd hslot' (by decide)
  | values =>
      obtain rfl := Option.some.inj hkind
      exact absurd hslot (by decide)
  | unknown => cases hkind

theorem exists_valuesContent {p : WirePart} (hkind : p.kind = some .values) :
    ∃ xs, p.valuesContent = some xs := by
  cases p with
  | values => exact ⟨_, rfl⟩
  | text slot content hslot ascii fits =>
      obtain rfl := Option.some.inj hkind
      exact absurd hslot (by decide)
  | number slot body hslot hbody =>
      obtain rfl := Option.some.inj hkind
      exact absurd hslot (by decide)
  | unknown => cases hkind

/-- A kind that occurs has a last part. -/
theorem exists_lastOf {slot : PartType} {parts : List WirePart}
    (h : ∃ p ∈ parts, p.kind = some slot) :
    ∃ p, lastOf slot parts = some p ∧ p.kind = some slot := by
  obtain ⟨p, hp, hkind⟩ := h
  have hne : ofKind slot parts ≠ [] :=
    List.ne_nil_of_mem (List.mem_filter.mpr ⟨hp, decide_eq_true hkind⟩)
  refine ⟨_, List.getLast?_eq_some_getLast hne, ?_⟩
  exact of_decide_eq_true (List.mem_filter.mp (List.getLast_mem hne)).2

/-- The message whose slots are the contents of the last part of each kind. -/
structure Reads (parts : List WirePart) (m : Message Number) : Prop where
  host : (lastOf .host parts).bind textContent = some m.host
  time : ((lastOf .time parts).bind numberContent).map (Int.cast : ℤ → ℚ) = some m.time
  plugin : (lastOf .plugin parts).bind textContent = some m.plugin
  pluginInstance : (lastOf .pluginInstance parts).bind textContent = some m.pluginInstance
  type : (lastOf .type parts).bind textContent = some m.type
  typeInstance : (lastOf .typeInstance parts).bind textContent = some m.typeInstance
  values : (lastOf .values parts).bind valuesContent = some m.values
  interval : ((lastOf .interval parts).bind numberContent).map (Int.cast : ℤ → ℚ) =
    some m.interval

theorem exists_text {parts : List WirePart} {slot : PartType}
    (h : ∃ p ∈ parts, p.kind = some slot) (hslot : slot.isText) :
    ∃ s, (lastOf slot parts).bind textContent = some s := by
  obtain ⟨p, hp, hkind⟩ := exists_lastOf h
  rw [hp]
  exact exists_textContent hkind hslot

theorem exists_number {parts : List WirePart} {slot : PartType}
    (h : ∃ p ∈ parts, p.kind = some slot) (hslot : slot.isNumber) :
    ∃ n, (lastOf slot parts).bind numberContent = some n := by
  obtain ⟨p, hp, hkind⟩ := exists_lastOf h
  rw [hp]
  exact exists_numberContent hkind hslot

/-- With a part of every kind there is a message to read. -/
theorem exists_reads {parts : List WirePart} (hall : ∀ slot, ∃ p ∈ parts, p.kind = some slot) :
    ∃ m, Reads parts m ∧ toValue (contents parts) = .ok m := by
  obtain ⟨host, hhost⟩ := exists_text (hall .host) rfl
  obtain ⟨time, htime⟩ := exists_number (hall .time) rfl
  obtain ⟨plugin, hplugin⟩ := exists_text (hall .plugin) rfl
  obtain ⟨pluginInstance, hpluginInstance⟩ := exists_text (hall .pluginInstance) rfl
  obtain ⟨type, htype⟩ := exists_text (hall .type) rfl
  obtain ⟨typeInstance, htypeInstance⟩ := exists_text (hall .typeInstance) rfl
  obtain ⟨last, hlast, hkind⟩ := exists_lastOf (hall .values)
  obtain ⟨values, hvalues⟩ := exists_valuesContent hkind
  obtain ⟨interval, hinterval⟩ := exists_number (hall .interval) rfl
  refine ⟨⟨type, typeInstance, plugin, pluginInstance, host, time, interval, values⟩, ?_, ?_⟩
  · exact {
      host := hhost
      time := by rw [htime]; rfl
      plugin := hplugin
      pluginInstance := hpluginInstance
      type := htype
      typeInstance := htypeInstance
      values := by rw [hlast]; exact hvalues
      interval := by rw [hinterval]; rfl }
  · simp only [contents, hhost, htime, hplugin, hpluginInstance, htype, htypeInstance, hlast,
      Option.bind_some, hvalues, hinterval]
    rfl

/-- **Well-formed datagrams decode**, in whatever order their parts stand, to the last
content of each kind. Only the order of the parts of one kind among each other
matters, and parts of unknown kinds do not. -/
theorem unpackBytes_wellFormed (types : List CollectdType) (parts : List WirePart)
    (hall : ∀ slot, ∃ p ∈ parts, p.kind = some slot)
    (hregistered : ∀ p ∈ lastOf .type parts, ∀ name ∈ p.textContent,
      (CollectdType.lookup? types name).isSome) :
    (∃ m, unpackBytes types (parts.flatMap bytes) = some (.ok (some m)) ∧ Reads parts m) ∧
    ∀ parts', (∀ slot, ofKind slot parts' = ofKind slot parts) →
      unpackBytes types (parts'.flatMap bytes) = unpackBytes types (parts.flatMap bytes) := by
  have hunpack : ∀ parts, unpackBytes types (parts.flatMap bytes) =
      some (interpretParts types (contents parts)) := by
    intro parts
    rw [unpackBytes, unpackPacket_flatMap_bytes, foldl_effect]
    rfl
  constructor
  · obtain ⟨m, hreads, hvalue⟩ := exists_reads hall
    obtain ⟨registered, hlookup⟩ :
        ∃ registered, CollectdType.lookup? types m.type = some registered := by
      obtain ⟨p, hp, hcontent⟩ := Option.bind_eq_some_iff.mp hreads.type
      exact Option.isSome_iff_exists.mp (hregistered p hp m.type hcontent)
    have htype : (contents parts).type = some m.type := hreads.type
    refine ⟨m, ?_, hreads⟩
    rw [hunpack, interpretParts, htype, Option.bind_some, hlookup, hvalue]
    rfl
  · intro parts' hsame
    have hcontents : contents parts' = contents parts := by
      simp only [contents, lastOf, hsame]
    rw [hunpack, hunpack, hcontents]

/-- A datagram in an order of its own, with two hosts and a part of an unknown kind. -/
def shuffled : List WirePart :=
  [.values [(.gauge, [0, 0, 0, 0, 0, 0, 0, 0])] (by simp) (by simp),
    .text .host [97] rfl (by simp) (by simp),
    .unknown 0x100 [1, 2, 3] rfl (by simp) (by simp),
    .text .type [116] rfl (by simp) (by simp),
    .number .interval [0, 0, 0, 0, 0, 0, 0, 10] rfl rfl,
    .text .plugin [112] rfl (by simp) (by simp),
    .text .typeInstance [] rfl (by simp) (by simp),
    .number .time [0, 0, 0, 0, 0, 0, 0, 70] rfl rfl,
    .text .pluginInstance [119] rfl (by simp) (by simp),
    .text .host [98] rfl (by simp) (by simp)]

theorem unpackBytes_wellFormed_shuffled :
    ∃ m, unpackBytes [⟨"t", [("x", .gauge)], by decide⟩] (shuffled.flatMap bytes) =
      some (.ok (some m)) ∧ Reads shuffled m := by
  refine (unpackBytes_wellFormed _ shuffled ?_ ?_).1
  · intro slot
    have hkind : some slot ∈ shuffled.map kind := by
      cases slot <;> decide
    obtain ⟨p, hp, hkind⟩ := List.mem_map.mp hkind
    exact ⟨p, hp, hkind⟩
  · intro p hp name hname
    have htype : (lastOf .type shuffled).bind textContent = some "t" := by decide +kernel
    have hname : name = "t" := by
      have hbind : (lastOf .type shuffled).bind textContent = some name :=
        Option.bind_eq_some_iff.mpr ⟨p, hp, hname⟩
      exact Option.some.inj (hbind.symm.trans htype)
    rw [hname]
    decide

end WirePart

end SqlalchemyCollectd
