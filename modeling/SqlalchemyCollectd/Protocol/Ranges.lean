import SqlalchemyCollectd.Protocol.Garbled

/-!
# SqlalchemyCollectd.Protocol.Ranges

The numbers that a decoded message can hold.

Eight bytes are all that the wire has for a number. So the time of a message is a
whole number of at most 63 bits and a sign, and each of its values is an integer
below `2 ^ 64` in magnitude or a double (`inRange_of_unpackBytes`).
-/

namespace SqlalchemyCollectd

open Struct

/-- A number of eight bytes. -/
def Number.Word : Number → Prop
  | .int n => n.natAbs < 2 ^ 64
  | .float _ => True

/-- The difference of two such numbers is divided by any other without an error. -/
theorem Number.Word.error_trueDiv {a b : Number} (ha : a.Word) (hb : b.Word) {d : ℤ}
    (hd : d.natAbs ≤ 2 ^ 64) {e : PyError} (h : (a - b).trueDiv d = .error e) :
    d = 0 ∧ e = .zeroDivisionError := by
  unfold trueDiv at h
  split at h
  · rename_i hzero
    exact ⟨by exact_mod_cast hzero, (Except.error.inj h).symm⟩
  · rename_i hne
    have hd0 : d ≠ 0 := by exact_mod_cast hne
    cases a with
    | float x => cases h
    | int m =>
        cases b with
        | float y => cases h
        | int n =>
            have hm : m.natAbs < 2 ^ 64 := ha
            have hn : n.natAbs < 2 ^ 64 := hb
            have hfinite : (Float.nearestQuotient ((m - n) * (d : ℚ).den) (d : ℚ).num).isInf =
                false := by
              rw [Rat.den_intCast, Rat.num_intCast, Nat.cast_one, mul_one]
              exact Float.isInf_nearestQuotient (by omega) (by omega) hd0
            rw [int_sub_int] at h
            dsimp only at h
            rw [hfinite] at h
            cases h

/-- What eight bytes can say. -/
structure Message.InRange (m : Message Number) : Prop where
  time : ∃ t : ℤ, m.time = t ∧ t.natAbs ≤ 2 ^ 63
  values : ∀ x ∈ m.values, x.Word

/-- The same, for the parts of a message. -/
structure Parts.InRange (r : Parts) : Prop where
  time : ∀ t ∈ r.time, t.natAbs ≤ 2 ^ 63
  values : ∀ xs ∈ r.values, ∀ x ∈ xs, x.Word

theorem beNat_lt_word {bs : Bytes} (h : bs.length = 8) : beNat bs < 2 ^ 64 := by
  have hlt := beNat_lt bs
  rw [h] at hlt
  norm_num at hlt ⊢
  exact hlt

theorem natAbs_bmod_le (n : ℤ) : (n.bmod (256 ^ 8)).natAbs ≤ 2 ^ 63 := by
  have hle := Int.bmod_lt (x := n) (m := 256 ^ 8) (by norm_num)
  have hge := Int.le_bmod (x := n) (m := 256 ^ 8) (by norm_num)
  norm_num at hle hge ⊢
  omega

theorem word_fieldValue (t : ValueType) {body : Bytes} (h : body.length = 8) :
    (fieldValue t body).Word := by
  have hlt := beNat_lt_word h
  cases t with
  | counter | absolute => simpa [fieldValue, Number.Word] using hlt
  | derive => exact (natAbs_bmod_le _).trans_lt (by norm_num)
  | gauge => trivial

/-- The values of a part are words. -/
theorem word_of_unpackValues {p : Bytes} {xs : List Number} (h : unpackValues p = .ok xs) :
    ∀ x ∈ xs, x.Word := by
  rw [unpackValues_eq] at h
  split at h
  · obtain ⟨hlength, hvalues⟩ := unpackFields_getElem? h
    intro x hx
    obtain ⟨i, hi⟩ := List.mem_iff_getElem?.mp hx
    obtain ⟨hlt, -⟩ := List.getElem?_eq_some_iff.mp hi
    obtain ⟨t, y, hfield, hy⟩ := hvalues i (hlength ▸ hlt)
    obtain rfl := Option.some.inj (hy.symm.trans hi)
    rw [hfield.value]
    have hfits := hfield.fits
    exact word_fieldValue t (List.length_take_of_le (by rw [List.length_drop]; omega))
  · cases h

/-! ### The parts of a datagram -/

namespace Parts.InRange

variable {r : Parts}

theorem setText (h : r.InRange) {slot : PartType} (hslot : slot.isText) (s : String) :
    (Parts.setText slot s r).InRange := by
  cases slot <;> first | exact absurd hslot (by decide) | exact ⟨h.time, h.values⟩

theorem setNumber (h : r.InRange) {slot : PartType} (hslot : slot.isNumber) {n : ℤ}
    (hn : n.natAbs ≤ 2 ^ 63) : (Parts.setNumber slot n r).InRange := by
  cases slot with
  | time =>
      refine ⟨fun t ht => ?_, h.values⟩
      obtain rfl := Option.some.inj ht
      exact hn
  | interval => exact ⟨h.time, h.values⟩
  | host | plugin | pluginInstance | type | typeInstance | values => cases hslot

theorem partEffect (h : r.InRange) {p : Bytes} (hreadable : Readable p) :
    (partEffect p r).InRange := by
  cases hslot : partType? p with
  | none =>
      rw [partEffect_of_none hslot]
      exact h
  | some slot =>
      by_cases htext : slot.isText
      · rw [partEffect_of_text hreadable hslot htext]
        exact h.setText htext _
      · by_cases hnumber : slot.isNumber
        · rw [partEffect_of_number hreadable hslot hnumber]
          exact h.setNumber hnumber (natAbs_bmod_le _)
        · obtain rfl := PartType.eq_values htext hnumber
          obtain ⟨xs, hxs, heffect⟩ := partEffect_of_values hreadable hslot
          rw [heffect]
          refine ⟨h.time, fun ys hys => ?_⟩
          obtain rfl := Option.some.inj hys
          exact word_of_unpackValues hxs

theorem foldl_partEffect (h : r.InRange) {ps : List Bytes} (hreadable : ∀ p ∈ ps, Readable p) :
    (ps.foldl (fun r p => SqlalchemyCollectd.partEffect p r) r).InRange := by
  induction ps generalizing r with
  | nil => exact h
  | cons p ps ih =>
      rw [List.forall_mem_cons] at hreadable
      exact ih (h.partEffect hreadable.1) hreadable.2

theorem toValue (h : r.InRange) {m : Message Number} (hm : toValue r = .ok m) : m.InRange := by
  obtain ⟨host, -, hm⟩ := of_lookupPart_bind hm
  obtain ⟨time, htime, hm⟩ := of_lookupPart_bind hm
  obtain ⟨plugin, -, hm⟩ := of_lookupPart_bind hm
  obtain ⟨pluginInstance, -, hm⟩ := of_lookupPart_bind hm
  obtain ⟨type, -, hm⟩ := of_lookupPart_bind hm
  obtain ⟨typeInstance, -, hm⟩ := of_lookupPart_bind hm
  obtain ⟨values, hvalues, hm⟩ := of_lookupPart_bind hm
  obtain ⟨interval, -, hm⟩ := of_lookupPart_bind hm
  cases hm
  exact ⟨⟨time, rfl, h.time time htime⟩, h.values values hvalues⟩

end Parts.InRange

/-- **A decoded message is in range.** -/
theorem inRange_of_unpackBytes {types : List CollectdType} {buf : Bytes} {m : Message Number}
    (h : unpackBytes types buf = some (.ok (some m))) : m.InRange := by
  obtain ⟨ps, hlegible⟩ := legible_of_unpackBytes h
  rw [unpackBytes_of_legible hlegible, Option.some.injEq, interpretParts_eq_some_iff] at h
  have hnew : Parts.InRange {} := ⟨nofun, nofun⟩
  exact (hnew.foldl_partEffect hlegible.readable).toValue h.2

end SqlalchemyCollectd
