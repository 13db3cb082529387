import SqlalchemyCollectd.Protocol.Garbled

/-!
# SqlalchemyCollectd.Protocol.Locality

When the fields of an accepted datagram do not bleed into each other.

The decoder checks the declared lengths against nothing. Only string parts are cut
out by them; for the others it reads as far as their kind demands (`reach`), beyond
the part if need be. A datagram that it accepts is read part by part, each from its
own bytes, exactly when it is a concatenation of *frames*: parts that are as long as
they declare and that contain what is read for them (`unpackBytes_local_iff`).

In one direction, two datagrams that agree on a frame agree on everything that is
read for it (`unpackHead_congr`). In the other, a part that is too short can be
followed by two different continuations that both make the datagram acceptable and
that the decoder reads into the part (`not_decodedLocally`).
-/

namespace SqlalchemyCollectd

open Struct

/-- A part that has the length it declares and contains what the decoder reads for it. -/
structure IsFrame (f : Bytes) : Prop where
  length : partLength f = f.length
  covers : reach f ≤ f.length

/-- A concatenation of frames. -/
inductive Framed : Bytes → Prop
  | nil : Framed []
  | cons {f rest : Bytes} (hf : IsFrame f) (hrest : Framed rest) : Framed (f ++ rest)

instance (f : Bytes) : Decidable (IsFrame f) :=
  decidable_of_iff (partLength f = f.length ∧ reach f ≤ f.length)
    ⟨fun h => ⟨h.1, h.2⟩, fun h => ⟨h.length, h.covers⟩⟩

theorem framed_flatten {fs : List Bytes} (h : ∀ f ∈ fs, IsFrame f) : Framed fs.flatten := by
  induction fs with
  | nil => exact .nil
  | cons f fs ih =>
      rw [List.flatten_cons]
      exact .cons (h f List.mem_cons_self) (ih fun g hg => h g (List.mem_cons_of_mem _ hg))

theorem four_le_reach (p : Bytes) : 4 ≤ reach p := by
  unfold reach
  split <;> omega

/-! ### Buffers that agree on a part -/

section Agree

variable {p p' : Bytes} {n : ℕ}

/-- Within the bytes on which two buffers agree, a slice is the same. -/
theorem take_drop_congr (h : p.take n = p'.take n) {k w : ℕ} (hle : k + w ≤ n) :
    (p.drop k).take w = (p'.drop k).take w := by
  have hprefix : p.take (k + w) = p'.take (k + w) := by
    have := congrArg (List.take (k + w)) h
    rwa [List.take_take, List.take_take, Nat.min_eq_left hle] at this
  rw [List.take_drop, List.take_drop, hprefix]

theorem getElem?_congr (h : p.take n = p'.take n) {k : ℕ} (hlt : k < n) : p[k]? = p'[k]? := by
  rw [← List.getElem?_take_of_lt hlt, h, List.getElem?_take_of_lt hlt]

theorem partCode_congr (h : p.take n = p'.take n) (hn : 4 ≤ n) : partCode p = partCode p' :=
  congrArg beNat (take_drop_congr (k := 0) h (by omega))

theorem partLength_congr (h : p.take n = p'.take n) (hn : 4 ≤ n) : partLength p = partLength p' :=
  congrArg beNat (take_drop_congr h (by omega))

theorem partType?_congr (h : p.take n = p'.take n) (hn : 4 ≤ n) : partType? p = partType? p' :=
  congrArg PartType.ofCode? (partCode_congr h hn)

theorem valueCount_congr (h : p.take n = p'.take n) (hn : 6 ≤ n) : valueCount p = valueCount p' :=
  congrArg beNat (take_drop_congr h (by omega))

theorem partText_congr (h : p.take n = p'.take n) (hn : 4 ≤ n) (hlength : partLength p = n) :
    partText p = partText p' := by
  have hlength' : partLength p' = n := partLength_congr h hn ▸ hlength
  have hstop : ∀ q : Bytes, partLength q = n → partText q = (q.drop 4).take (n - 1 - 4) := by
    intro q hq
    have hstop : ((n : ℤ) - 1).toNat = n - 1 := by omega
    rw [partText, slice, hq, if_neg (by omega), hstop, List.drop_take]
  rw [hstop p hlength, hstop p' hlength']
  exact take_drop_congr h (by omega)

theorem reach_congr (h : p.take n = p'.take n) (hreach : reach p ≤ n) : reach p' = reach p := by
  have hn : 4 ≤ n := (four_le_reach p).trans hreach
  unfold reach at hreach ⊢
  rw [← partType?_congr h hn]
  split at hreach
  · rfl
  · rfl
  · rw [valueCount_congr h (by omega)]
  · rfl

theorem Field.type_eq {codePos valuePos valuePos' : ℕ} {t t' : ValueType} {x x' : Number}
    (h : p.take n = p'.take n) (hcode : codePos < n) (hfield : Field p codePos valuePos t x)
    (hfield' : Field p' codePos valuePos' t' x') : t = t' := by
  obtain ⟨c, hc, ht⟩ := hfield.code
  obtain ⟨c', hc', ht'⟩ := hfield'.code
  obtain rfl : c = c' := by
    rw [getElem?_congr h hcode] at hc
    exact Option.some.inj (hc.symm.trans hc')
  exact Option.some.inj (ht.symm.trans ht')

/-- What is found at positions that agree is the same. -/
theorem Field.congr {codePos valuePos : ℕ} {t t' : ValueType} {x x' : Number}
    (h : p.take n = p'.take n) (hcode : codePos < n) (hvalue : valuePos + 8 ≤ n)
    (hfield : Field p codePos valuePos t x) (hfield' : Field p' codePos valuePos t' x') :
    x = x' := by
  obtain rfl := Field.type_eq h hcode hfield hfield'
  rw [hfield.value, hfield'.value, take_drop_congr h hvalue]

/-- The values that two buffers with as many of them have in common positions. -/
theorem unpackValues_congr (h : p.take n = p'.take n) (hreach : 6 + 9 * valueCount p ≤ n)
    {xs xs' : List Number} (hxs : unpackValues p = .ok xs) (hxs' : unpackValues p' = .ok xs') :
    xs = xs' := by
  have hcount := valueCount_congr h (by omega)
  rw [unpackValues_eq] at hxs hxs'
  split at hxs
  · split at hxs'
    · obtain ⟨hlength, hvalues⟩ := unpackFields_getElem? hxs
      rw [← hcount] at hxs'
      obtain ⟨hlength', hvalues'⟩ := unpackFields_getElem? hxs'
      refine List.ext_getElem? fun i => ?_
      by_cases hi : i < valueCount p
      · obtain ⟨t, x, hfield, hx⟩ := hvalues i hi
        obtain ⟨t', x', hfield', hx'⟩ := hvalues' i hi
        rw [hx, hx', Field.congr h (by omega) (by omega) hfield hfield']
      · rw [List.getElem?_eq_none (by omega), List.getElem?_eq_none (by omega)]
    · cases hxs'
  · cases hxs

/-- **Two buffers that agree on all that is read** decode the part at their head alike. -/
theorem unpackHead_congr (h : p.take n = p'.take n) (hlength : partLength p = n)
    (hreach : reach p ≤ n) (hp : Readable p) (hp' : Readable p') :
    unpackHead p = unpackHead p' := by
  have hn : 4 ≤ n := (four_le_reach p).trans hreach
  rw [unpackHead_of_readable hp, unpackHead_of_readable hp', partLength_congr h hn]
  have htype := partType?_congr h hn
  suffices partEffect p = partEffect p' by rw [this]
  cases hslot : partType? p with
  | none => rw [partEffect_of_none hslot, partEffect_of_none (htype ▸ hslot)]
  | some slot =>
      have hslot' : partType? p' = some slot := htype ▸ hslot
      by_cases htext : slot.isText
      · rw [partEffect_of_text hp hslot htext, partEffect_of_text hp' hslot' htext,
          partText_congr h hn hlength]
      · by_cases hnumber : slot.isNumber
        · have htwelve : reach p = 12 := reach_number hslot hnumber
          rw [partEffect_of_number hp hslot hnumber, partEffect_of_number hp' hslot' hnumber,
            take_drop_congr h (by omega)]
        · obtain rfl : slot = .values := PartType.eq_values htext hnumber
          have hvalues : reach p = 6 + 9 * valueCount p := reach_values hslot
          obtain ⟨xs, hxs, heffect⟩ := partEffect_of_values hp hslot
          obtain ⟨xs', hxs', heffect'⟩ := partEffect_of_values hp' hslot'
          rw [heffect, heffect', unpackValues_congr h (by omega) hxs hxs']

end Agree

/-! ### Buffers that differ in a byte that is read -/

theorem Parts.setNumber_inj {slot : PartType} (h : slot.isNumber) {n n' : ℤ} {r : Parts}
    (heq : setNumber slot n r = setNumber slot n' r) : n = n' := by
  cases slot with
  | time => exact Option.some.inj (congrArg Parts.time heq)
  | interval => exact Option.some.inj (congrArg Parts.interval heq)
  | _ => cases h

theorem bmod_beNat_inj {body body' : Bytes} (hlength : body.length = 8)
    (hlength' : body'.length = 8)
    (h : (beNat body : ℤ).bmod (256 ^ 8) = (beNat body' : ℤ).bmod (256 ^ 8)) : body = body' := by
  have hmod := congrArg (· % ((256 ^ 8 : ℕ) : ℤ)) h
  have hlt := beNat_lt body
  have hlt' := beNat_lt body'
  rw [hlength] at hlt
  rw [hlength'] at hlt'
  simp only [Int.bmod_emod] at hmod
  rw [Int.emod_eq_of_lt (by omega) (by exact_mod_cast hlt),
    Int.emod_eq_of_lt (by omega) (by exact_mod_cast hlt')] at hmod
  exact beNat_inj (hlength.trans hlength'.symm) (by exact_mod_cast hmod)

/-- The value of eight bytes determines them. For a double, which may be a NaN, this
needs a last byte that is small. -/
theorem fieldValue_inj {t : ValueType} {body body' : Bytes} (hlength : body.length = 8)
    (hlength' : body'.length = 8)
    (hsmall : beNat body.reverse < 2 ^ 62 ∧ beNat body'.reverse < 2 ^ 62)
    (h : fieldValue t body = fieldValue t body') : body = body' := by
  have hunsigned : (beNat body : ℤ) = beNat body' → body = body' := fun h =>
    beNat_inj (hlength.trans hlength'.symm) (by exact_mod_cast h)
  cases t with
  | counter => exact hunsigned (Number.int.inj h)
  | absolute => exact hunsigned (Number.int.inj h)
  | derive => exact bmod_beNat_inj hlength hlength' (Number.int.inj h)
  | gauge =>
      have hnat : ∀ m : ℕ, m < 2 ^ 62 → (UInt64.ofNat m).toNat = m := fun m hm => by
        rw [UInt64.toNat_ofNat']
        exact Nat.mod_eq_of_lt (by omega)
      have hbits := congrArg Float.toBits (Number.float.inj h)
      rw [Float.toBits_ofBits_of_lt (by rw [hnat _ hsmall.1]; exact hsmall.1),
        Float.toBits_ofBits_of_lt (by rw [hnat _ hsmall.2]; exact hsmall.2)] at hbits
      have hrev := congrArg UInt64.toNat hbits
      rw [hnat _ hsmall.1, hnat _ hsmall.2] at hrev
      refine List.reverse_injective (beNat_inj ?_ hrev)
      rw [List.length_reverse, List.length_reverse, hlength, hlength']

theorem beNat_reverse_lt {body : Bytes} (hlength : body.length = 8) {b : UInt8}
    (hlast : body[7]? = some b) (hb : b.toNat ≤ 2) : beNat body.reverse < 2 ^ 62 := by
  obtain ⟨init, last, rfl⟩ : ∃ init last, body = init ++ [last] :=
    ⟨_, _, (List.dropLast_append_getLast (l := body) (by rintro rfl; cases hlength)).symm⟩
  have hinit : init.length = 7 := by simpa using hlength
  obtain rfl : last = b := by simpa [hinit] using hlast
  have hlt := beNat_lt init.reverse
  rw [List.length_reverse, hinit] at hlt
  rw [List.reverse_append, List.reverse_singleton, List.singleton_append, beNat,
    List.length_reverse, hinit]
  omega

section Differ

variable {q q' : Bytes} {n : ℕ}

theorem slice_ne (hq : q[n]? = some 1) (hq' : q'[n]? = some 2) {k w : ℕ} (hk : k ≤ n)
    (hw : n < k + w) : (q.drop k).take w ≠ (q'.drop k).take w := by
  intro h
  have hbyte := congrArg (·[n - k]?) h
  have hpos : k + (n - k) = n := by omega
  simp only [List.getElem?_take, List.getElem?_drop, hpos, hq, hq'] at hbyte
  rw [if_pos (by omega), if_pos (by omega)] at hbyte
  cases hbyte

/-- From the bytes at a part's end on, the two buffers hold small bytes. -/
def SmallFrom (n : ℕ) (q : Bytes) : Prop :=
  ∀ i, n ≤ i → i < n + 8 → ∃ b : UInt8, q[i]? = some b ∧ b.toNat ≤ 2

/-- A code says whether the value is a double, so the two values differ. -/
theorem Field.ne_of_code {valuePos valuePos' : ℕ} {t t' : ValueType} {x x' : Number}
    (hq : q[n]? = some 1) (hq' : q'[n]? = some 2) (hfield : Field q n valuePos t x)
    (hfield' : Field q' n valuePos' t' x') : x ≠ x' := by
  intro hvalue
  obtain ⟨c, hc, ht⟩ := hfield.code
  obtain ⟨c', hc', ht'⟩ := hfield'.code
  rw [hq] at hc
  rw [hq'] at hc'
  cases hc
  cases hc'
  cases ht
  cases ht'
  rw [hfield.value, hfield'.value] at hvalue
  cases hvalue

theorem Field.ne_of_body {codePos valuePos : ℕ} {t t' : ValueType} {x x' : Number}
    (h : q.take n = q'.take n) (hq : q[n]? = some 1) (hq' : q'[n]? = some 2)
    (hsmall : SmallFrom n q) (hsmall' : SmallFrom n q') (hcode : codePos < n)
    (hstart : valuePos ≤ n) (hstop : n < valuePos + 8) (hfield : Field q codePos valuePos t x)
    (hfield' : Field q' codePos valuePos t' x') : x ≠ x' := by
  intro hvalue
  obtain rfl := Field.type_eq h hcode hfield hfield'
  have hfits := hfield.fits
  have hfits' := hfield'.fits
  rw [hfield.value, hfield'.value] at hvalue
  -- the last byte of the body lies behind the part
  obtain ⟨b, hb, hble⟩ := hsmall (valuePos + 7) (by omega) (by omega)
  obtain ⟨b', hb', hble'⟩ := hsmall' (valuePos + 7) (by omega) (by omega)
  have hlast : ∀ {q : Bytes} {b : UInt8}, q[valuePos + 7]? = some b →
      ((q.drop valuePos).take 8)[7]? = some b := by
    intro q b hb
    rw [List.getElem?_take_of_lt (by omega), List.getElem?_drop, hb]
  have height : ∀ {q : Bytes}, valuePos + 8 ≤ q.length →
      ((q.drop valuePos).take 8).length = 8 := by
    intro q hfits
    rw [List.length_take, List.length_drop]
    omega
  exact slice_ne hq hq' hstart hstop (fieldValue_inj (height hfits) (height hfits')
    ⟨beNat_reverse_lt (height hfits) (hlast hb) hble,
      beNat_reverse_lt (height hfits') (hlast hb') hble'⟩ hvalue)

theorem unpackValues_ne (h : q.take n = q'.take n) (hq : q[n]? = some 1) (hq' : q'[n]? = some 2)
    (hsmall : SmallFrom n q) (hsmall' : SmallFrom n q') (hn : 4 ≤ n)
    (hreach : n < 6 + 9 * valueCount q) {xs xs' : List Number}
    (hxs : unpackValues q = .ok xs) (hxs' : unpackValues q' = .ok xs') : xs ≠ xs' := by
  rintro rfl
  rw [unpackValues_eq] at hxs hxs'
  split at hxs
  case isFalse => cases hxs
  case isTrue hlength =>
  split at hxs'
  case isFalse => cases hxs'
  case isTrue hlength' =>
  obtain ⟨hcount, hvalues⟩ := unpackFields_getElem? hxs
  obtain ⟨hcount', hvalues'⟩ := unpackFields_getElem? hxs'
  have hsame : valueCount q = valueCount q' := hcount.symm.trans hcount'
  by_cases hn6 : n < 6
  · -- the byte is one of the two that announce the number of values
    refine slice_ne hq hq' hn (w := 2) hn6 (beNat_inj ?_ hsame)
    rw [List.length_take, List.length_take, List.length_drop, List.length_drop]
    omega
  · by_cases hcode : n < 6 + valueCount q
    · -- it is a type code
      obtain ⟨t, x, hfield, hx⟩ := hvalues (n - 6) (by omega)
      obtain ⟨t', x', hfield', hx'⟩ := hvalues' (n - 6) (by omega)
      rw [show 6 + (n - 6) = n by omega] at hfield hfield'
      exact Field.ne_of_code hq hq' hfield hfield' (Option.some.inj (hx.symm.trans hx'))
    · -- it belongs to the body of a value
      obtain ⟨i, hi⟩ : ∃ i, i = (n - (6 + valueCount q)) / 8 := ⟨_, rfl⟩
      obtain ⟨t, x, hfield, hx⟩ := hvalues i (by omega)
      obtain ⟨t', x', hfield', hx'⟩ := hvalues' i (by omega)
      rw [← hsame] at hfield'
      exact Field.ne_of_body h hq hq' hsmall hsmall' (by omega) (by omega) (by omega) hfield hfield'
        (Option.some.inj (hx.symm.trans hx'))

/-- **A byte that is read** shows in what is decoded, if it is behind the part. -/
theorem partEffect_ne (h : q.take n = q'.take n) (hq : q[n]? = some 1) (hq' : q'[n]? = some 2)
    (hsmall : SmallFrom n q) (hsmall' : SmallFrom n q') (hn : 4 ≤ n) (hreach : n < reach q)
    (hreadable : Readable q) (hreadable' : Readable q') : partEffect q ≠ partEffect q' := by
  intro heffect
  cases hslot : partType? q with
  | none =>
      have hother : reach q = 4 := by rw [reach, hslot]
      omega
  | some slot =>
      have hslot' : partType? q' = some slot := partType?_congr h hn ▸ hslot
      by_cases htext : slot.isText
      · rw [reach_text hslot htext] at hreach
        omega
      · by_cases hnumber : slot.isNumber
        · have hlength := hreadable.reach_le
          have hlength' := hreadable'.reach_le
          rw [reach_number hslot hnumber] at hreach hlength
          rw [reach_number hslot' hnumber] at hlength'
          rw [partEffect_of_number hreadable hslot hnumber,
            partEffect_of_number hreadable' hslot' hnumber] at heffect
          refine slice_ne hq hq' hn hreach (bmod_beNat_inj ?_ ?_
            (Parts.setNumber_inj hnumber (congrFun heffect {})))
          · simp only [List.length_take, List.length_drop]
            omega
          · simp only [List.length_take, List.length_drop]
            omega
        · obtain rfl := PartType.eq_values htext hnumber
          obtain ⟨xs, hxs, hset⟩ := partEffect_of_values hreadable hslot
          obtain ⟨xs', hxs', hset'⟩ := partEffect_of_values hreadable' hslot'
          rw [reach_values hslot] at hreach
          rw [hset, hset'] at heffect
          have hvalues : some xs = some xs' := congrArg Parts.values (congrFun heffect {})
          exact unpackValues_ne h hq hq' hsmall hsmall' hn hreach hxs hxs' (Option.some.inj hvalues)

end Differ

/-! ### A part followed by a filler -/

/-- A part of 256 bytes with a code that the decoder does not know. -/
def block (c : UInt8) : Bytes := c :: 0 :: 1 :: 0 :: List.replicate 252 0

/-- Many of them, so that nothing behind is reached from a part before them. -/
def filler (c : UInt8) : Bytes := (List.replicate (9 * 256) (block c)).flatten

@[simp] theorem length_block (c : UInt8) : (block c).length = 256 := by
  simp only [block, List.length_cons, List.length_replicate]

@[simp] theorem length_filler (c : UInt8) : (filler c).length = 9 * 65536 := by
  rw [filler, List.length_flatten, List.map_replicate, List.sum_replicate, length_block,
    smul_eq_mul]

theorem mem_filler {c b : UInt8} (h : b ∈ filler c) : b = c ∨ b = 0 ∨ b = 1 := by
  obtain ⟨bs, hbs, hb⟩ := List.mem_flatten.mp h
  obtain rfl := List.eq_of_mem_replicate hbs
  simp only [block, List.mem_cons, List.mem_replicate] at hb
  tauto

theorem getElem?_filler_zero (c : UInt8) (rest : Bytes) : (filler c ++ rest)[0]? = some c := rfl

/-- The loop hops over the blocks. -/
theorem exists_hops_blocks {c : UInt8} (hc : c = 1 ∨ c = 2) {buf : Bytes} {ps : List Bytes}
    (h : Hops buf ps) (k : ℕ) :
    ∃ qs, Hops ((List.replicate k (block c)).flatten ++ buf) (qs ++ ps) ∧
      ∀ q ∈ qs, Readable q ∧ partType? q = none := by
  induction k with
  | zero => exact ⟨[], h, by simp⟩
  | succ k ih =>
      obtain ⟨qs, hhops, hqs⟩ := ih
      generalize hrest : (List.replicate k (block c)).flatten ++ buf = rest at hhops
      have hstop : (List.replicate (k + 1) (block c)).flatten ++ buf = block c ++ rest := by
        rw [List.replicate_succ, List.flatten_cons, List.append_assoc, hrest]
      have hlength : partLength (block c ++ rest) = 256 := by
        show beNat [1, 0] = 256
        decide
      have htype : partType? (block c ++ rest) = none := by
        show PartType.ofCode? (beNat [c, 0]) = none
        rcases hc with rfl | rfl <;> decide
      have hfour : 4 ≤ (block c ++ rest).length := by
        rw [List.length_append, length_block]
        omega
      refine ⟨(block c ++ rest) :: qs, ?_, List.forall_mem_cons.mpr ⟨⟨?_, htype⟩, hqs⟩⟩
      · rw [hstop]
        refine .next (by rintro hnil; simp [hnil] at hfour) ?_
        rwa [hlength, List.drop_left' (length_block c)]
      · exact {
          header := hfour
          reach_le := by rwa [reach, htype]
          ascii := by simp [htype]
          codes := by simp [htype] }

/-- The bytes of a part, then the filler, then a datagram. -/
def stuffed (c : UInt8) (p buf : Bytes) : Bytes := p.take (partLength p) ++ (filler c ++ buf)

section Stuffed

variable {p : Bytes}

theorem take_stuffed (c : UInt8) (buf : Bytes) (hp : partLength p ≤ p.length) :
    p.take (partLength p) = (stuffed c p buf).take (partLength p) := by
  rw [stuffed, List.take_left' (List.length_take_of_le hp)]

theorem getElem?_stuffed (c : UInt8) (buf : Bytes) (hp : partLength p ≤ p.length) (i : ℕ) :
    (stuffed c p buf)[partLength p + i]? = (filler c ++ buf)[i]? := by
  rw [stuffed, List.getElem?_append_right (by rw [List.length_take_of_le hp]; omega),
    List.length_take_of_le hp, Nat.add_sub_cancel_left]

theorem exists_getElem?_stuffed (c : UInt8) (buf : Bytes) (hp : partLength p ≤ p.length) {i : ℕ}
    (hi : i < 9 * 65536) :
    ∃ b ∈ filler c, (stuffed c p buf)[partLength p + i]? = some b := by
  have hlt : i < (filler c).length := by rwa [length_filler]
  refine ⟨_, List.getElem_mem hlt, ?_⟩
  rw [getElem?_stuffed c buf hp, List.getElem?_append_left hlt, List.getElem?_eq_getElem hlt]

theorem reach_le_filler (q : Bytes) : reach q ≤ 9 * 65536 := by
  have hcount := beNat_lt ((q.drop 4).take 2)
  have hwidth : ((q.drop 4).take 2).length ≤ 2 := List.length_take_le ..
  have hpow : 256 ^ ((q.drop 4).take 2).length ≤ 256 ^ 2 := Nat.pow_le_pow_right (by omega) hwidth
  unfold reach valueCount
  split <;> omega

theorem toNat_le_of_mem_filler {c b : UInt8} (hc : c = 1 ∨ c = 2) (hb : b ∈ filler c) :
    b.toNat ≤ 2 := by
  rcases mem_filler hb with rfl | rfl | rfl
  · rcases hc with rfl | rfl <;> decide
  · decide
  · decide

/-- Behind its own bytes a part finds whatever it needs in the filler. -/
theorem readable_stuffed {c : UInt8} (hc : c = 1 ∨ c = 2) (buf : Bytes) (hp : Readable p)
    (hfour : 4 ≤ partLength p) (hle : partLength p ≤ p.length) (hreach : partLength p < reach p) :
    Readable (stuffed c p buf) := by
  have hagree := take_stuffed c buf hle
  have htype := partType?_congr hagree hfour
  have hlength : (stuffed c p buf).length = partLength p + (9 * 65536 + buf.length) := by
    rw [stuffed, List.length_append, List.length_append, length_filler,
      List.length_take_of_le hle]
  refine ⟨by omega, ?_, fun slot hslot htext => ?_, fun hvalues b hb => ?_⟩
  · have := reach_le_filler (stuffed c p buf)
    omega
  · rw [← htype] at hslot
    rw [reach_text hslot htext] at hreach
    omega
  · obtain ⟨i, hi⟩ := List.mem_iff_getElem?.mp hb
    have hcount := (List.getElem?_eq_some_iff.mp hi).1
    rw [List.length_take] at hcount
    have hlimit := reach_le_filler (stuffed c p buf)
    rw [reach_values hvalues] at hlimit
    rw [List.getElem?_take_of_lt (by omega), List.getElem?_drop] at hi
    by_cases hown : 6 + i < partLength p
    · -- a code of the part itself
      rw [← getElem?_congr hagree hown] at hi
      refine hp.codes (htype ▸ hvalues) b (List.mem_iff_getElem?.mpr ⟨i, ?_⟩)
      have hsame := valueCount_congr hagree (by omega)
      rw [List.getElem?_take_of_lt (by omega), List.getElem?_drop, hi]
    · -- a code from the filler
      obtain ⟨b', hb', hget⟩ := exists_getElem?_stuffed c buf hle
        (i := 6 + i - partLength p) (by omega)
      rw [show partLength p + (6 + i - partLength p) = 6 + i by omega, hi] at hget
      cases hget
      have hsmall := toNat_le_of_mem_filler hc hb'
      generalize b.toNat = n at hsmall
      interval_cases n <;> rfl

end Stuffed

/-! ### Datagrams that stay inside their parts -/

/-- A datagram that is decoded to a message, with the stops of the loop. -/
structure Accepted (types : List CollectdType) (buf : Bytes) (ps : List Bytes) : Prop where
  message : ∃ m, unpackBytes types buf = some (.ok (some m))
  hops : Hops buf ps

/-- The declared lengths are at least 4 and sum to the length of the datagram. -/
structure Tiled (buf : Bytes) (ps : List Bytes) : Prop where
  four_le : ∀ p ∈ ps, 4 ≤ partLength p
  sum : (ps.map partLength).sum = buf.length

/-- The part at the head of `p` is decoded alike in every accepted datagram that has
the bytes of the part there. -/
def DecodedLocally (types : List CollectdType) (p : Bytes) : Prop :=
  ∀ buf' ps', Accepted types buf' ps' → ∀ p' ∈ ps',
    p.take (partLength p) = p'.take (partLength p) → unpackHead p = unpackHead p'

/-- The datagram is well framed, and no known part is decoded from bytes of another. -/
def StaysInside (types : List CollectdType) (buf : Bytes) : Prop :=
  ∃ ps, Hops buf ps ∧ Tiled buf ps ∧
    ∀ p ∈ ps, (partType? p).isSome → DecodedLocally types p

theorem Accepted.exists_legible {types : List CollectdType} {buf : Bytes} {ps : List Bytes}
    (h : Accepted types buf ps) : Legible buf ps ∧ NamesType types ps ∧ Complete ps := by
  obtain ⟨ps', hlegible, hcontent⟩ := exists_unpackBytes_iff.mp h.message
  obtain rfl := h.hops.unique hlegible.hops
  exact ⟨hlegible, hcontent⟩

/-- Frames are what the loop stops at. -/
theorem Framed.tiled {buf : Bytes} {ps : List Bytes} (h : Framed buf) (hhops : Hops buf ps) :
    Tiled buf ps ∧ ∀ p ∈ ps, reach p ≤ partLength p := by
  induction h generalizing ps with
  | nil =>
      cases hhops with
      | done => exact ⟨⟨by simp, rfl⟩, by simp⟩
      | next hne => exact absurd rfl hne
  | @cons f rest hf _ ih =>
      have hfour : 4 ≤ f.length := (four_le_reach f).trans hf.covers
      have hagree : f.take f.length = (f ++ rest).take f.length := by
        rw [List.take_length, List.take_left]
      have hlength : partLength (f ++ rest) = f.length :=
        partLength_congr hagree hfour ▸ hf.length
      generalize hbuf : f ++ rest = buf at hhops
      cases hhops with
      | done =>
          rw [List.append_eq_nil_iff] at hbuf
          simp [hbuf.1] at hfour
      | next _ hrest =>
          subst hbuf
          rw [hlength, List.drop_left] at hrest
          obtain ⟨htiled, hreach⟩ := ih hrest
          refine ⟨⟨List.forall_mem_cons.mpr ⟨hlength ▸ hfour, htiled.four_le⟩, ?_⟩,
            List.forall_mem_cons.mpr ⟨?_, hreach⟩⟩
          · rw [List.map_cons, List.sum_cons, htiled.sum, hlength, List.length_append]
          · rw [hlength, reach_congr hagree hf.covers]
            exact hf.covers

theorem framed_of_tiled {buf : Bytes} {ps : List Bytes} (hhops : Hops buf ps)
    (hsum : (ps.map partLength).sum = buf.length)
    (hreach : ∀ p ∈ ps, reach p ≤ partLength p) : Framed buf := by
  induction hhops with
  | done => exact .nil
  | @next buf ps _ _ ih =>
      rw [List.map_cons, List.sum_cons] at hsum
      have hcovers := hreach buf List.mem_cons_self
      have hfour := (four_le_reach buf).trans hcovers
      have hlength : (buf.take (partLength buf)).length = partLength buf :=
        List.length_take_of_le (by omega)
      have hagree : buf.take (partLength buf) =
          (buf.take (partLength buf)).take (partLength buf) := by
        rw [List.take_take, Nat.min_self]
      have hframe : IsFrame (buf.take (partLength buf)) := by
        constructor
        · rw [← partLength_congr hagree hfour, hlength]
        · rw [reach_congr hagree hcovers, hlength]
          exact hcovers
      rw [← List.take_append_drop (partLength buf) buf]
      refine .cons hframe (ih ?_ fun p hp => hreach p (List.mem_cons_of_mem _ hp))
      rw [List.length_drop]
      omega

theorem lastType_append {ps : List Bytes} {p : Bytes} (h : lastType ps = some p)
    (qs : List Bytes) : lastType (qs ++ ps) = some p := by
  unfold lastType at h ⊢
  rw [List.filter_append, List.getLast?_append, h]
  rfl

/-- Behind an accepted datagram's own bytes its message is still complete. -/
theorem accepted_append {types : List CollectdType} {buf buf' : Bytes} {ps qs : List Bytes}
    (h : Accepted types buf ps) (hhops : Hops buf' (qs ++ ps)) (hqs : ∀ q ∈ qs, Readable q) :
    Accepted types buf' (qs ++ ps) := by
  obtain ⟨hlegible, ⟨p, hlast, hnamed⟩, hcomplete⟩ := h.exists_legible
  refine ⟨exists_unpackBytes_iff.mpr ⟨qs ++ ps, ⟨hhops, ?_⟩, ⟨p, lastType_append hlast qs, hnamed⟩,
    fun slot => ?_⟩, hhops⟩
  · exact List.forall_mem_append.mpr ⟨hqs, hlegible.readable⟩
  · obtain ⟨p, hp, hslot⟩ := hcomplete slot
    exact ⟨p, List.mem_append_right _ hp, hslot⟩

/-- **A part that is too short** for what is read of it can be continued in two ways. -/
theorem not_decodedLocally {types : List CollectdType} {buf p : Bytes} {ps : List Bytes}
    (h : Accepted types buf ps) (hp : Readable p) (hfour : 4 ≤ partLength p)
    (hle : partLength p ≤ p.length) (hreach : partLength p < reach p) :
    ¬DecodedLocally types p := by
  intro hlocal
  have hagree : ∀ c, p.take (partLength p) = (stuffed c p buf).take (partLength p) :=
    fun c => take_stuffed c buf hle
  have hreadable : ∀ c, c = 1 ∨ c = 2 → Readable (stuffed c p buf) :=
    fun c hc => readable_stuffed hc buf hp hfour hle hreach
  -- both continuations end with the datagram itself
  have hdecoded : ∀ c, c = 1 ∨ c = 2 → unpackHead p = unpackHead (stuffed c p buf) := by
    intro c hc
    obtain ⟨qs, hhops, hqs⟩ := exists_hops_blocks hc h.hops (9 * 256)
    have hstuffed : Hops (stuffed c p buf) ((stuffed c p buf :: qs) ++ ps) := by
      refine .next (fun hnil => ?_) ?_
      · have := (hreadable c hc).header
        simp [hnil] at this
      · rw [← partLength_congr (hagree c) hfour, stuffed,
          List.drop_left' (List.length_take_of_le hle)]
        exact hhops
    refine hlocal _ _ (accepted_append h hstuffed ?_) _ (by simp) (hagree c)
    exact List.forall_mem_cons.mpr ⟨hreadable c hc, fun q hq => (hqs q hq).1⟩
  have hsmall : ∀ c, c = 1 ∨ c = 2 → SmallFrom (partLength p) (stuffed c p buf) := by
    intro c hc i hi hlt
    obtain ⟨b, hb, hget⟩ := exists_getElem?_stuffed c buf hle
      (i := i - partLength p) (by omega)
    rw [Nat.add_sub_cancel' hi] at hget
    exact ⟨b, hget, toNat_le_of_mem_filler hc hb⟩
  have hhead : ∀ c, (stuffed c p buf)[partLength p]? = some c := fun c =>
    (getElem?_stuffed c buf hle 0).trans (getElem?_filler_zero c buf)
  have hlong : partLength p < reach (stuffed 1 p buf) := by
    by_contra hshort
    rw [not_lt] at hshort
    rw [← reach_congr (hagree 1).symm hshort] at hshort
    omega
  have heq := (hdecoded 1 (.inl rfl)).symm.trans (hdecoded 2 (.inr rfl))
  rw [unpackHead_of_readable (hreadable 1 (.inl rfl)),
    unpackHead_of_readable (hreadable 2 (.inr rfl))] at heq
  exact partEffect_ne ((hagree 1).symm.trans (hagree 2)) (hhead 1) (hhead 2)
    (hsmall 1 (.inl rfl)) (hsmall 2 (.inr rfl)) hfour hlong (hreadable 1 (.inl rfl))
    (hreadable 2 (.inr rfl)) (Prod.mk.inj (Except.ok.inj heq)).2

theorem length_le_of_mem_hops {buf p : Bytes} {ps : List Bytes} (h : Hops buf ps)
    (hsum : (ps.map partLength).sum = buf.length) (hp : p ∈ ps) : partLength p ≤ p.length := by
  induction h with
  | done => cases hp
  | @next buf ps _ _ ih =>
      rw [List.map_cons, List.sum_cons] at hsum
      rcases List.mem_cons.mp hp with rfl | hp
      · omega
      · refine ih ?_ hp
        rw [List.length_drop]
        omega

/-- **When an accepted datagram stays inside its parts**: when it is a concatenation of
parts that declare the length they have and contain what their kind makes the decoder
read. -/
theorem unpackBytes_local_iff {types : List CollectdType} {buf : Bytes}
    (h : ∃ m, unpackBytes types buf = some (.ok (some m))) :
    StaysInside types buf ↔ Framed buf := by
  constructor
  · intro ⟨ps, hhops, htiled, hlocal⟩
    refine framed_of_tiled hhops htiled.sum fun p hp => ?_
    by_contra hshort
    rw [not_le] at hshort
    have haccepted : Accepted types buf ps := ⟨h, hhops⟩
    have hfour := htiled.four_le p hp
    refine not_decodedLocally haccepted (haccepted.exists_legible.1.readable p hp) hfour
      (length_le_of_mem_hops hhops htiled.sum hp) hshort (hlocal p hp ?_)
    rw [Option.isSome_iff_ne_none]
    intro hnone
    have hother : reach p = 4 := by rw [reach, hnone]
    omega
  · intro hframed
    obtain ⟨ps, hlegible, -⟩ := exists_unpackBytes_iff.mp h
    obtain ⟨htiled, hreach⟩ := hframed.tiled hlegible.hops
    refine ⟨ps, hlegible.hops, htiled, fun p hp _ buf' ps' haccepted' p' hp' hagree => ?_⟩
    exact unpackHead_congr hagree rfl (hreach p hp) (hlegible.readable p hp)
      (haccepted'.exists_legible.1.readable p' hp')

/-- The parts of a message but for its time. -/
def timeless (host : UInt8) : List Bytes :=
  [[0, 0, 0, 6, host, 0], [0, 2, 0, 6, 0x70, 0], [0, 3, 0, 6, 0x71, 0], [0, 4, 0, 6, 0x74, 0],
    [0, 5, 0, 5, 0], [0, 6, 0, 6, 0, 0], [0, 7, 0, 12, 0, 0, 0, 0, 0, 0, 0, 10]]

/-- What it is decoded to, once there is a time. -/
def decoded (host : String) (time : ℚ) : Message Number where
  type := "t"
  typeInstance := ""
  plugin := "p"
  pluginInstance := "q"
  host := host
  time := time
  interval := 10
  values := []

/-- A message at time 70. -/
def timed : List Bytes := [0, 1, 0, 12, 0, 0, 0, 0, 0, 0, 0, 70] :: timeless 0x68

theorem unpackBytes_local_iff_timed :
    StaysInside [⟨"t", [], by decide⟩] timed.flatten := by
  refine (unpackBytes_local_iff ?_).mpr (framed_flatten (by decide))
  exact ⟨decoded "h" 70, by decide +kernel⟩

/-- A message whose time part has no room for a number. -/
def untimed (host : UInt8) : Bytes := [0, 1, 0, 4] ++ (timeless host).flatten

/-- The time of such a message is made of the part that follows, so it changes with the
host. -/
theorem unpackBytes_bleeds :
    (∃ m, unpackBytes [⟨"t", [], by decide⟩] (untimed 0x68) = some (.ok (some m))) ∧
      ¬StaysInside [⟨"t", [], by decide⟩] (untimed 0x68) := by
  have haccepted : ∀ host : UInt8, host = 0x68 ∨ host = 0x69 → ∃ m,
      unpackBytes [⟨"t", [], by decide⟩] (untimed host) = some (.ok (some m)) := by
    rintro host (rfl | rfl)
    · exact ⟨decoded "h" 27514634242, by decide +kernel⟩
    · exact ⟨decoded "i" 27531411458, by decide +kernel⟩
  refine ⟨haccepted 0x68 (.inl rfl), ?_⟩
  rintro ⟨ps, hhops, -, hlocal⟩
  obtain ⟨ps', hlegible, -⟩ := exists_unpackBytes_iff.mp (haccepted 0x69 (.inr rfl))
  have hhops' := hlegible.hops
  cases hhops with
  | next _ _ =>
      cases hhops' with
      | next hne hrest =>
          have hhead := hlocal (untimed 0x68) List.mem_cons_self (by decide) (untimed 0x69) _
            ⟨haccepted 0x69 (.inr rfl), .next hne hrest⟩ (untimed 0x69) List.mem_cons_self
            (by decide)
          have htime := congrArg (fun part => part.toOption.map fun r => (r.2 {}).time) hhead
          exact absurd htime (by decide +kernel)

end SqlalchemyCollectd
