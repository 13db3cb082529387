import SqlalchemyCollectd.Protocol.Wire

/-!
# SqlalchemyCollectd.Protocol.Framing

The parts of a datagram as the part loop meets them.

The loop hops from part to part by the declared lengths (`Hops`). At each stop the
decoder looks at the rest of the datagram, and whether it raises there is a
condition on these bytes (`Readable`). The loop returns exactly when the hops come to
an end and every part on the way is readable, and then the result is the
composition of what the parts do (`unpackPacket_ok_iff`).
-/

namespace SqlalchemyCollectd

open Struct

/-! ### One part -/

/-- The type code in the header of the part at the head of a buffer. -/
def partCode (p : Bytes) : ℕ := beNat (p.take 2)

/-- The length that its header declares. -/
def partLength (p : Bytes) : ℕ := beNat ((p.drop 2).take 2)

/-- Its kind, if the decoder knows it. -/
def partType? (p : Bytes) : Option PartType := PartType.ofCode? (partCode p)

/-- The number of values a values part announces. -/
def valueCount (p : Bytes) : ℕ := beNat ((p.drop 4).take 2)

/-- The bytes that the decoder reads as a string. -/
def partText (p : Bytes) : Bytes := slice p 4 ((partLength p : ℤ) - 1)

/-- How far into the buffer the decoder reads for a part that is no string. -/
def reach (p : Bytes) : ℕ :=
  match partType? p with
  | some .time | some .interval => 12
  | some .values => 6 + 9 * valueCount p
  | _ => 4

/-- The type codes of the values are known. -/
def KnownCodes (p : Bytes) : Prop :=
  ∀ c ∈ (p.drop 6).take (valueCount p), (ValueType.ofCode? c.toNat).isSome

/-- The decoder does not raise on the part at the head of a buffer. -/
structure Readable (p : Bytes) : Prop where
  header : 4 ≤ p.length
  reach_le : reach p ≤ p.length
  ascii : ∀ slot, partType? p = some slot → slot.isText → ∀ b ∈ partText p, b.toNat < 128
  codes : partType? p = some .values → KnownCodes p

theorem reach_text {p : Bytes} {slot : PartType} (hslot : partType? p = some slot)
    (htext : slot.isText) : reach p = 4 := by
  rw [reach, hslot]
  cases slot <;> first | rfl | cases htext

theorem reach_number {p : Bytes} {slot : PartType} (hslot : partType? p = some slot)
    (hnumber : slot.isNumber) : reach p = 12 := by
  rw [reach, hslot]
  cases slot <;> first | rfl | cases hnumber

theorem reach_values {p : Bytes} (hslot : partType? p = some .values) :
    reach p = 6 + 9 * valueCount p := by
  rw [reach, hslot]

theorem takeExact_eq {w : ℕ} {buf : Bytes} (h : w ≤ buf.length) :
    takeExact w buf = some (buf.take w) := if_pos h

theorem takeExact_eq_none {w : ℕ} {buf : Bytes} (h : ¬w ≤ buf.length) :
    takeExact w buf = none := if_neg h

theorem unpackHeader_eq {p : Bytes} (h : 4 ≤ p.length) :
    unpackHeader p = .ok (partCode p, partLength p) := by
  unfold unpackHeader unpackUnsigned
  rw [takeExact_eq (by omega), takeExact_eq (by rw [List.length_drop]; omega)]
  rfl

theorem unpackHeader_short {p : Bytes} (h : ¬4 ≤ p.length) :
    unpackHeader p = .error .structError := by
  unfold unpackHeader unpackUnsigned
  by_cases h2 : 2 ≤ p.length
  · rw [takeExact_eq h2, takeExact_eq_none (by rw [List.length_drop]; omega)]
    rfl
  · rw [takeExact_eq_none h2]
    rfl

theorem unpackString_eq (p : Bytes) :
    unpackString (partLength p) p =
      if ∀ b ∈ partText p, b.toNat < 128 then .ok (asciiString (partText p))
      else .error .unicodeError := by
  have hall : (partText p).all (fun b => decide (b.toNat < 128)) = true ↔
      ∀ b ∈ partText p, b.toNat < 128 := by
    simp
  unfold unpackString decodeAscii
  show (if (partText p).all (fun b => decide (b.toNat < 128)) = true then _ else _) = _
  by_cases h : ∀ b ∈ partText p, b.toNat < 128
  · rw [if_pos (hall.mpr h), if_pos h]
    rfl
  · rw [if_neg (mt hall.mp h), if_neg h]

theorem unpackLong_eq (p : Bytes) :
    unpackLong p = if 12 ≤ p.length then .ok ((beNat ((p.drop 4).take 8) : ℤ).bmod (256 ^ 8))
      else .error .structError := by
  unfold unpackLong unpackSigned
  by_cases h : 12 ≤ p.length
  · rw [if_pos h, takeExact_eq (by rw [List.length_drop]; omega)]
    rfl
  · rw [if_neg h, takeExact_eq_none (by rw [List.length_drop]; omega)]
    rfl

/-- The value with a type code, at a position of the buffer. -/
theorem unpackFormat_eq (t : ValueType) (buf : Bytes) :
    unpackFormat t buf = if 8 ≤ buf.length then .ok (fieldValue t (buf.take 8))
      else .error .structError := by
  by_cases h : 8 ≤ buf.length
  · rw [if_pos h]
    have hsplit := WirePart.unpackFormat_fieldValue t (List.length_take_of_le h) (buf.drop 8)
    rwa [List.take_append_drop] at hsplit
  · rw [if_neg h]
    unfold unpackFormat unpackUnsigned unpackSigned unpackDouble
    rw [takeExact_eq_none h]
    cases t <;> rfl

/-! ### The values of a part -/

theorem unpackUnsigned_one (buf : Bytes) (i : ℕ) :
    unpackUnsigned 1 (buf.drop i) = buf[i]?.map UInt8.toNat := by
  unfold unpackUnsigned
  by_cases h : i < buf.length
  · rw [takeExact_eq (by rw [List.length_drop]; omega), List.getElem?_eq_getElem h,
      List.drop_eq_getElem_cons h, List.take_succ_cons, List.take_zero]
    simp [beNat]
  · rw [takeExact_eq_none (by rw [List.length_drop]; omega), List.getElem?_eq_none (by omega)]
    rfl

/-- The decoder finds a value with a known type code, whole, at these positions. -/
structure Field (buf : Bytes) (codePos valuePos : ℕ) (t : ValueType) (x : Number) : Prop where
  code : ∃ c, buf[codePos]? = some c ∧ ValueType.ofCode? c.toNat = some t
  fits : valuePos + 8 ≤ buf.length
  value : x = fieldValue t ((buf.drop valuePos).take 8)

theorem unpackFields_succ {buf : Bytes} {num codePos valuesPos : ℕ} {xs : List Number} :
    unpackFields buf (num + 1) codePos valuesPos = .ok xs ↔
      ∃ t x rest, Field buf codePos valuesPos t x ∧
        unpackFields buf num (codePos + 1) (valuesPos + 8) = .ok rest ∧ xs = x :: rest := by
  have hshort : 8 ≤ (buf.drop valuesPos).length ↔ valuesPos + 8 ≤ buf.length := by
    rw [List.length_drop]
    omega
  rw [unpackFields, unpackUnsigned_one]
  constructor
  · intro h
    cases hcode : buf[codePos]? with
    | none =>
        rw [hcode] at h
        cases h
    | some c =>
        cases htype : ValueType.ofCode? c.toNat with
        | none => simp [hcode, structCall, bind, Except.bind, htype] at h
        | some t =>
            simp only [hcode, structCall, bind, Except.bind, Option.map_some, htype,
              unpackFormat_eq] at h
            by_cases hfits : 8 ≤ (buf.drop valuesPos).length
            · rw [if_pos hfits] at h
              cases hrest : unpackFields buf num (codePos + 1) (valuesPos + 8) with
              | error e =>
                  rw [hrest] at h
                  cases h
              | ok rest =>
                  rw [hrest] at h
                  cases h
                  exact ⟨t, _, rest, ⟨⟨c, hcode, htype⟩, hshort.mp hfits, rfl⟩, rfl, rfl⟩
            · rw [if_neg hfits] at h
              cases h
  · rintro ⟨t, x, rest, ⟨⟨c, hcode, htype⟩, hfits, rfl⟩, hrest, rfl⟩
    simp only [hcode, structCall, bind, Except.bind, Option.map_some, htype, unpackFormat_eq,
      if_pos (hshort.mpr hfits), hrest]
    rfl

/-- The values that the loop reads, one by one. -/
theorem unpackFields_getElem? {buf : Bytes} {num codePos valuesPos : ℕ} {xs : List Number}
    (h : unpackFields buf num codePos valuesPos = .ok xs) :
    xs.length = num ∧ ∀ i < num, ∃ t x, Field buf (codePos + i) (valuesPos + 8 * i) t x ∧
      xs[i]? = some x := by
  induction num generalizing codePos valuesPos xs with
  | zero =>
      cases h
      exact ⟨rfl, fun i hi => absurd hi (Nat.not_lt_zero i)⟩
  | succ num ih =>
      obtain ⟨t, x, rest, hfield, hrest, rfl⟩ := unpackFields_succ.mp h
      obtain ⟨hlength, hvalues⟩ := ih hrest
      refine ⟨by rw [List.length_cons, hlength], fun i hi => ?_⟩
      cases i with
      | zero => exact ⟨t, x, hfield, rfl⟩
      | succ i =>
          obtain ⟨t', x', hfield', hx'⟩ := hvalues i (by omega)
          refine ⟨t', x', ?_, hx'⟩
          rwa [show codePos + (i + 1) = codePos + 1 + i by omega,
            show valuesPos + 8 * (i + 1) = valuesPos + 8 + 8 * i by omega]

theorem exists_unpackFields {buf : Bytes} {num codePos valuesPos : ℕ}
    (h : ∀ i < num, ∃ t x, Field buf (codePos + i) (valuesPos + 8 * i) t x) :
    ∃ xs, unpackFields buf num codePos valuesPos = .ok xs := by
  induction num generalizing codePos valuesPos with
  | zero => exact ⟨[], rfl⟩
  | succ num ih =>
      obtain ⟨t, x, hfield⟩ := h 0 (Nat.succ_pos num)
      have hlater : ∀ i < num, ∃ t x, Field buf (codePos + 1 + i) (valuesPos + 8 + 8 * i) t x := by
        intro i hi
        obtain ⟨t', x', hfield'⟩ := h (i + 1) (by omega)
        refine ⟨t', x', ?_⟩
        rwa [show codePos + 1 + i = codePos + (i + 1) by omega,
          show valuesPos + 8 + 8 * i = valuesPos + 8 * (i + 1) by omega]
      obtain ⟨rest, hrest⟩ := ih hlater
      exact ⟨x :: rest, unpackFields_succ.mpr ⟨t, x, rest, hfield, hrest, rfl⟩⟩

theorem unpackValues_eq (p : Bytes) :
    unpackValues p = if 6 ≤ p.length then unpackFields p (valueCount p) 6 (6 + valueCount p)
      else .error .structError := by
  unfold unpackValues unpackUnsigned
  by_cases h : 6 ≤ p.length
  · rw [if_pos h, takeExact_eq (by rw [List.length_drop]; omega)]
    rfl
  · rw [if_neg h, takeExact_eq_none (by rw [List.length_drop]; omega)]
    rfl

/-- A values part is decoded when its type codes are known and nothing is missing. -/
theorem exists_unpackValues_iff {p : Bytes} :
    (∃ xs, unpackValues p = .ok xs) ↔ 6 + 9 * valueCount p ≤ p.length ∧ KnownCodes p := by
  rw [unpackValues_eq]
  constructor
  · intro ⟨xs, h⟩
    by_cases h6 : 6 ≤ p.length
    · rw [if_pos h6] at h
      obtain ⟨-, hvalues⟩ := unpackFields_getElem? h
      constructor
      · cases hcount : valueCount p with
        | zero => omega
        | succ n =>
            -- the last value is whole
            obtain ⟨t, x, hfield, -⟩ := hvalues n (by omega)
            have hfits := hfield.fits
            omega
      · intro c hc
        obtain ⟨i, hi⟩ := List.mem_iff_getElem?.mp hc
        rw [List.getElem?_take, List.getElem?_drop] at hi
        split at hi
        · rename_i hlt
          obtain ⟨t, x, hfield, -⟩ := hvalues i hlt
          obtain ⟨c', hc', htype⟩ := hfield.code
          rw [Option.some.inj (hi.symm.trans hc'), htype]
          rfl
        · cases hi
    · rw [if_neg h6] at h
      cases h
  · intro ⟨hlength, hcodes⟩
    rw [if_pos (by omega)]
    refine exists_unpackFields fun i hi => ?_
    have hpos : 6 + i < p.length := by omega
    have hmem : p[6 + i] ∈ (p.drop 6).take (valueCount p) := by
      refine List.mem_iff_getElem?.mpr ⟨i, ?_⟩
      rw [List.getElem?_take, if_pos hi, List.getElem?_drop, List.getElem?_eq_getElem hpos]
    obtain ⟨t, ht⟩ := Option.isSome_iff_exists.mp (hcodes _ hmem)
    exact ⟨t, _, ⟨⟨_, List.getElem?_eq_getElem hpos, ht⟩, by omega, rfl⟩⟩

/-! ### One iteration -/

theorem exists_ok_bind_pure {β γ : Type} {x : Except PyError β} {f : β → γ} :
    (∃ store, (do let value ← x; return f value) = Except.ok store) ↔ ∃ value, x = .ok value := by
  cases x with
  | error e => exact ⟨fun ⟨_, h⟩ => (by cases h), fun ⟨_, h⟩ => (by cases h)⟩
  | ok value => exact ⟨fun _ => ⟨value, rfl⟩, fun _ => ⟨f value, rfl⟩⟩

/-- A known part is handled without an exception exactly when it is readable. -/
theorem exists_receive_iff {p : Bytes} {slot : PartType} (hslot : partType? p = some slot)
    (hheader : 4 ≤ p.length) :
    (∃ store, slot.receive (partLength p) p = .ok store) ↔ Readable p := by
  have hreach : ∀ n, reach p = n → (Readable p → n ≤ p.length) := fun n hn h => hn ▸ h.reach_le
  by_cases htext : slot.isText
  · have hother := reach_text hslot htext
    rw [PartType.receive_text htext, exists_ok_bind_pure, unpackString_eq]
    constructor
    · rintro ⟨value, h⟩
      split at h
      · rename_i hascii
        refine ⟨hheader, hother ▸ hheader, fun _ _ _ => hascii, fun hvalues => ?_⟩
        rw [hslot] at hvalues
        rw [Option.some.inj hvalues] at htext
        exact absurd htext (by decide)
      · cases h
    · intro h
      exact ⟨_, if_pos (h.ascii slot hslot htext)⟩
  · by_cases hnumber : slot.isNumber
    · have htwelve := reach_number hslot hnumber
      rw [PartType.receive_number hnumber, exists_ok_bind_pure, unpackLong_eq]
      constructor
      · rintro ⟨value, h⟩
        split at h
        · rename_i hlength
          refine ⟨hheader, htwelve ▸ hlength, fun slot' hslot' htext' => ?_, fun hvalues => ?_⟩
          · rw [hslot] at hslot'
            exact absurd (Option.some.inj hslot' ▸ htext') htext
          · rw [hslot] at hvalues
            rw [Option.some.inj hvalues] at hnumber
            exact absurd hnumber (by decide)
        · cases h
      · intro h
        exact ⟨_, if_pos (hreach 12 htwelve h)⟩
    · obtain rfl := PartType.eq_values htext hnumber
      have hvalues := reach_values hslot
      rw [PartType.receive, exists_ok_bind_pure, exists_unpackValues_iff]
      constructor
      · rintro ⟨hlength, hcodes⟩
        refine ⟨hheader, hvalues ▸ hlength, fun slot' hslot' htext' => ?_, fun _ => hcodes⟩
        rw [hslot] at hslot'
        exact absurd (Option.some.inj hslot' ▸ htext') htext
      · intro h
        exact ⟨hreach _ hvalues h, h.codes hslot⟩

/-- What the part at the head of a buffer does to the result. -/
def partEffect (p : Bytes) : Parts → Parts :=
  match partType? p with
  | none => id
  | some slot =>
      match slot.receive (partLength p) p with
      | .ok store => store
      | .error _ => id

/-- **One iteration** raises unless the part is readable. -/
theorem unpackHead_of_readable {p : Bytes} (h : Readable p) :
    unpackHead p = .ok (partLength p, partEffect p) := by
  unfold unpackHead partEffect
  rw [unpackHeader_eq h.header]
  simp only [bind, Except.bind]
  cases hslot : partType? p with
  | none =>
      rw [partType?] at hslot
      rw [hslot]
      rfl
  | some slot =>
      obtain ⟨store, hstore⟩ := (exists_receive_iff hslot h.header).mpr h
      rw [partType?] at hslot
      simp only [hslot, hstore]
      rfl

section Effect

variable {p : Bytes} {slot : PartType}

theorem partEffect_of_none (hslot : partType? p = none) : partEffect p = id := by
  rw [partEffect, hslot]

theorem partEffect_of_text (h : Readable p) (hslot : partType? p = some slot)
    (htext : slot.isText) : partEffect p = Parts.setText slot (asciiString (partText p)) := by
  rw [partEffect, hslot]
  dsimp only
  rw [PartType.receive_text htext, unpackString_eq, if_pos (h.ascii slot hslot htext)]
  rfl

theorem partEffect_of_number (h : Readable p) (hslot : partType? p = some slot)
    (hnumber : slot.isNumber) :
    partEffect p = Parts.setNumber slot ((beNat ((p.drop 4).take 8) : ℤ).bmod (256 ^ 8)) := by
  have htwelve := reach_number hslot hnumber
  rw [partEffect, hslot]
  dsimp only
  rw [PartType.receive_number hnumber, unpackLong_eq, if_pos (htwelve ▸ h.reach_le)]
  rfl

theorem partEffect_of_values (h : Readable p) (hslot : partType? p = some .values) :
    ∃ xs, unpackValues p = .ok xs ∧ partEffect p = fun r => { r with values := some xs } := by
  have hvalues := reach_values hslot
  obtain ⟨xs, hxs⟩ := exists_unpackValues_iff.mpr ⟨hvalues ▸ h.reach_le, h.codes hslot⟩
  refine ⟨xs, hxs, ?_⟩
  rw [partEffect, hslot]
  dsimp only
  rw [PartType.receive, hxs]
  rfl

end Effect

theorem readable_of_unpackHead {p : Bytes} {part : ℕ × (Parts → Parts)}
    (h : unpackHead p = .ok part) : Readable p := by
  by_cases hheader : 4 ≤ p.length
  · unfold unpackHead at h
    rw [unpackHeader_eq hheader] at h
    simp only [bind, Except.bind] at h
    cases hslot : partType? p with
    | none =>
        have hreach : reach p = 4 := by rw [reach, hslot]
        have hnone : ∀ slot, partType? p ≠ some slot := by simp [hslot]
        exact ⟨hheader, hreach ▸ hheader, fun slot hsome => absurd hsome (hnone slot),
          fun hsome => absurd hsome (hnone _)⟩
    | some slot =>
        refine (exists_receive_iff hslot hheader).mp ?_
        rw [partType?] at hslot
        simp only [hslot] at h
        cases hstore : slot.receive (partLength p) p with
        | error e =>
            rw [hstore] at h
            cases h
        | ok store => exact ⟨store, rfl⟩
  · unfold unpackHead at h
    rw [unpackHeader_short hheader] at h
    cases h

/-! ### The hops of the loop -/

/-- The stops of the part loop: what is left of the datagram at each of its parts. -/
inductive Hops : Bytes → List Bytes → Prop
  | done : Hops [] []
  | next {buf : Bytes} {ps : List Bytes} (hne : buf ≠ []) :
      Hops (buf.drop (partLength buf)) ps → Hops buf (buf :: ps)

theorem hops_nil_iff {buf : Bytes} : Hops buf [] ↔ buf = [] := by
  constructor
  · rintro ⟨⟩
    rfl
  · rintro rfl
    exact .done

theorem hops_cons_iff {buf p : Bytes} {ps : List Bytes} :
    Hops buf (p :: ps) ↔ p = buf ∧ buf ≠ [] ∧ Hops (buf.drop (partLength buf)) ps := by
  constructor
  · rintro ⟨⟩
    exact ⟨rfl, ‹_›, ‹_›⟩
  · rintro ⟨rfl, hne, hrest⟩
    exact .next hne hrest

theorem Hops.unique {buf : Bytes} {ps ps' : List Bytes} (h : Hops buf ps) (h' : Hops buf ps') :
    ps = ps' := by
  induction h generalizing ps' with
  | done =>
      cases h' with
      | done => rfl
      | next hne => exact absurd rfl hne
  | next hne _ ih =>
      cases h' with
      | done => exact absurd rfl hne
      | next _ hrest => rw [ih hrest]

/-- Readable hops are what the loop makes. -/
theorem unpackLoop_of_hops {buf : Bytes} {ps : List Bytes} {s : PacketState}
    (h : Hops (buf.drop s.pos) ps) (hreadable : ∀ p ∈ ps, Readable p) :
    unpackLoop buf ps.length s = some (.ok (ps.foldl (fun r p => partEffect p r) s.result)) := by
  induction ps generalizing s with
  | nil =>
      exact unpackLoop_done (List.drop_eq_nil_iff.mp (hops_nil_iff.mp h)) 0
  | cons p ps ih =>
      obtain ⟨rfl, hne, hrest⟩ := hops_cons_iff.mp h
      have hhead := unpackHead_of_readable (hreadable _ List.mem_cons_self)
      have hpos : s.pos < buf.length := by
        by_contra hpos
        exact hne (List.drop_eq_nil_of_le (not_lt.mp hpos))
      rw [List.length_cons, unpackLoop_ok hpos hhead]
      rw [List.drop_drop] at hrest
      exact ih hrest fun q hq => hreadable q (List.mem_cons_of_mem _ hq)

/-- A loop that returns has made readable hops. -/
theorem exists_hops_of_unpackLoop {buf : Bytes} {fuel : ℕ} {s : PacketState} {r : Parts}
    (h : unpackLoop buf fuel s = some (.ok r)) :
    ∃ ps, Hops (buf.drop s.pos) ps ∧ (∀ p ∈ ps, Readable p) ∧
      r = ps.foldl (fun r p => partEffect p r) s.result := by
  induction fuel generalizing s with
  | zero =>
      by_cases hpos : s.pos < buf.length
      · rw [unpackLoop_zero hpos] at h
        cases h
      · rw [unpackLoop_done (not_lt.mp hpos)] at h
        cases h
        exact ⟨[], by rw [List.drop_eq_nil_of_le (not_lt.mp hpos)]; exact .done, by simp, rfl⟩
  | succ fuel ih =>
      by_cases hpos : s.pos < buf.length
      · cases hhead : unpackHead (buf.drop s.pos) with
        | error e =>
            rw [unpackLoop_error hpos hhead] at h
            cases h
        | ok part =>
            obtain ⟨length, store⟩ := part
            have hreadable := readable_of_unpackHead hhead
            obtain ⟨rfl, rfl⟩ := Prod.mk.inj
              (Except.ok.inj (hhead.symm.trans (unpackHead_of_readable hreadable)))
            rw [unpackLoop_ok hpos hhead] at h
            obtain ⟨ps, hhops, hall, rfl⟩ := ih h
            have hne : buf.drop s.pos ≠ [] := fun hnil => by
              have := List.drop_eq_nil_iff.mp hnil
              omega
            refine ⟨buf.drop s.pos :: ps, .next hne ?_, List.forall_mem_cons.mpr ⟨hreadable, hall⟩, rfl⟩
            rw [List.drop_drop]
            exact hhops
      · rw [unpackLoop_done (not_lt.mp hpos)] at h
        cases h
        exact ⟨[], by rw [List.drop_eq_nil_of_le (not_lt.mp hpos)]; exact .done, by simp, rfl⟩

/-- **When the part loop returns.** -/
theorem unpackPacket_ok_iff {buf : Bytes} {r : Parts} :
    unpackPacket buf = some (.ok r) ↔ ∃ ps, Hops buf ps ∧ (∀ p ∈ ps, Readable p) ∧
      r = ps.foldl (fun r p => partEffect p r) {} := by
  constructor
  · exact exists_hops_of_unpackLoop
  · rintro ⟨ps, hhops, hreadable, rfl⟩
    exact unpackPacket_of_unpackLoop (unpackLoop_of_hops (s := {}) hhops hreadable)

end SqlalchemyCollectd
