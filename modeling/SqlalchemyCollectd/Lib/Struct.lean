import SqlalchemyCollectd.Lib.Binary64

/-!
# SqlalchemyCollectd.Lib.Struct

**Fixed-width binary formats.** Packing and unpacking of single values at the
head of a byte string, in the manner of a C-struct codec: unsigned and signed
integers in network byte order, with a range check on the way out, and doubles
in little-endian order. Unpacking reads the first bytes of a buffer and ignores
what follows; it fails exactly when the buffer is too short.

The pairs are inverse to each other whatever follows in the buffer
(`unpackUnsigned_pack`, `unpackSigned_pack`, `unpackDouble_pack`).
-/

namespace Struct

abbrev Bytes := List UInt8

/-! ### Big-endian naturals -/

/-- The `w` big-endian bytes of `n`; higher bits are dropped. -/
def beBytes : ℕ → ℕ → Bytes
  | 0, _ => []
  | w + 1, n => UInt8.ofNat (n / 256 ^ w) :: beBytes w n

/-- The natural number with the given big-endian bytes. -/
def beNat : Bytes → ℕ
  | [] => 0
  | b :: bs => b.toNat * 256 ^ bs.length + beNat bs

@[simp] theorem length_beBytes (w n : ℕ) : (beBytes w n).length = w := by
  induction w with
  | zero => rfl
  | succ w ih => rw [beBytes, List.length_cons, ih]

theorem beNat_beBytes (w n : ℕ) : beNat (beBytes w n) = n % 256 ^ w := by
  induction w with
  | zero => simp [beBytes, beNat, Nat.mod_one]
  | succ w ih =>
      have hbyte : (UInt8.ofNat (n / 256 ^ w)).toNat = n / 256 ^ w % 256 := by simp
      rw [beBytes, beNat, ih, length_beBytes, hbyte, pow_succ, Nat.mod_mul]
      ring

theorem beNat_beBytes_of_lt {w n : ℕ} (h : n < 256 ^ w) : beNat (beBytes w n) = n := by
  rw [beNat_beBytes, Nat.mod_eq_of_lt h]

theorem beNat_lt (bs : Bytes) : beNat bs < 256 ^ bs.length := by
  induction bs with
  | nil => simp [beNat]
  | cons b bs ih =>
      have hb : b.toNat ≤ 255 := by
        have := b.toNat_lt
        omega
      calc beNat (b :: bs) < b.toNat * 256 ^ bs.length + 256 ^ bs.length := by
            rw [beNat]
            omega
        _ = (b.toNat + 1) * 256 ^ bs.length := by ring
        _ ≤ 256 * 256 ^ bs.length := Nat.mul_le_mul_right _ (by omega)
        _ = 256 ^ (b :: bs).length := by rw [List.length_cons, pow_succ]; ring

/-- Of a given number of bytes, the number they stand for determines them. -/
theorem beNat_inj {bs bs' : Bytes} (hlength : bs.length = bs'.length) (h : beNat bs = beNat bs') :
    bs = bs' := by
  induction bs generalizing bs' with
  | nil => exact (List.length_eq_zero_iff.mp hlength.symm).symm
  | cons b bs ih =>
      cases bs' with
      | nil => cases hlength
      | cons b' bs' =>
          have hrest : bs.length = bs'.length := Nat.succ_injective hlength
          have hlt := beNat_lt bs
          have hlt' := beNat_lt bs'
          rw [beNat, beNat, ← hrest] at h
          rw [← hrest] at hlt'
          -- dividing by the weight of the first byte gives the first byte
          have hweight : 0 < 256 ^ bs.length := by positivity
          have hdiv : ∀ x r, r < 256 ^ bs.length → (x * 256 ^ bs.length + r) / 256 ^ bs.length = x := by
            intro x r hr
            rw [Nat.mul_comm, Nat.mul_add_div hweight, Nat.div_eq_of_lt hr, Nat.add_zero]
          have hhead : b.toNat = b'.toNat := by
            rw [← hdiv b.toNat _ hlt, h, hdiv b'.toNat _ hlt']
          rw [hhead] at h
          rw [UInt8.toNat_inj.mp hhead, ih hrest (Nat.add_left_cancel h)]

/-! ### Reading the head of a buffer -/

/-- The first `w` bytes of a buffer that has that many. -/
def takeExact (w : ℕ) (buf : Bytes) : Option Bytes :=
  if w ≤ buf.length then some (buf.take w) else none

theorem takeExact_append {w : ℕ} {bs : Bytes} (h : bs.length = w) (rest : Bytes) :
    takeExact w (bs ++ rest) = some bs := by
  unfold takeExact
  rw [if_pos (by rw [List.length_append]; omega), ← h, List.take_left]

/-! ### Integers -/

/-- An unsigned integer in `w` big-endian bytes. -/
def packUnsigned (w : ℕ) (n : ℤ) : Option Bytes :=
  if 0 ≤ n ∧ n < 256 ^ w then some (beBytes w n.toNat) else none

def unpackUnsigned (w : ℕ) (buf : Bytes) : Option ℕ := (takeExact w buf).map beNat

/-- A signed integer in `w` big-endian bytes, two's complement. -/
def packSigned (w : ℕ) (n : ℤ) : Option Bytes :=
  if -(256 ^ w) ≤ n * 2 ∧ n * 2 < 256 ^ w then some (beBytes w (n % 256 ^ w).toNat) else none

def unpackSigned (w : ℕ) (buf : Bytes) : Option ℤ :=
  (takeExact w buf).map fun bs => (beNat bs : ℤ).bmod (256 ^ w)

theorem length_packUnsigned {w : ℕ} {n : ℤ} {bs : Bytes} (h : packUnsigned w n = some bs) :
    bs.length = w := by
  unfold packUnsigned at h
  split at h
  · rw [← Option.some.inj h, length_beBytes]
  · cases h

theorem length_packSigned {w : ℕ} {n : ℤ} {bs : Bytes} (h : packSigned w n = some bs) :
    bs.length = w := by
  unfold packSigned at h
  split at h
  · rw [← Option.some.inj h, length_beBytes]
  · cases h

theorem unpackUnsigned_pack {w : ℕ} {n : ℤ} {bs : Bytes} (h : packUnsigned w n = some bs)
    (rest : Bytes) : (unpackUnsigned w (bs ++ rest)).map (Nat.cast : ℕ → ℤ) = some n := by
  unfold unpackUnsigned
  rw [takeExact_append (length_packUnsigned h)]
  unfold packUnsigned at h
  split at h
  · rename_i hrange
    have hlt : n.toNat < 256 ^ w := by
      have hcast : ((n.toNat : ℕ) : ℤ) < ((256 ^ w : ℕ) : ℤ) := by push_cast; omega
      exact_mod_cast hcast
    rw [← Option.some.inj h, Option.map_some, beNat_beBytes_of_lt hlt, Option.map_some,
      Int.toNat_of_nonneg hrange.1]
  · cases h

theorem unpackSigned_pack {w : ℕ} {n : ℤ} {bs : Bytes} (h : packSigned w n = some bs)
    (rest : Bytes) : unpackSigned w (bs ++ rest) = some n := by
  unfold unpackSigned
  rw [takeExact_append (length_packSigned h)]
  unfold packSigned at h
  split at h
  · rename_i hrange
    have hpos : (0 : ℤ) < 256 ^ w := by positivity
    have hnonneg : 0 ≤ n % 256 ^ w := Int.emod_nonneg n hpos.ne'
    have hlt : (n % 256 ^ w).toNat < 256 ^ w := by
      have hcast : (((n % 256 ^ w).toNat : ℕ) : ℤ) < ((256 ^ w : ℕ) : ℤ) := by
        rw [Int.toNat_of_nonneg hnonneg]
        push_cast
        exact Int.emod_lt_of_pos n hpos
      exact_mod_cast hcast
    have hpow : ((256 : ℤ) ^ w) = ((256 ^ w : ℕ) : ℤ) := by push_cast; rfl
    rw [← Option.some.inj h, Option.map_some, beNat_beBytes_of_lt hlt,
      Int.toNat_of_nonneg hnonneg, hpow, Int.emod_bmod]
    rw [hpow] at hrange
    exact congrArg some (Int.bmod_eq_of_le_mul_two hrange.1 hrange.2)
  · cases h

/-! ### Doubles -/

/-- A double in eight little-endian bytes. -/
def packDouble (x : Float) : Bytes := (beBytes 8 x.toBits.toNat).reverse

def unpackDouble (buf : Bytes) : Option Float :=
  (takeExact 8 buf).map fun bs => Float.ofBits (UInt64.ofNat (beNat bs.reverse))

@[simp] theorem length_packDouble (x : Float) : (packDouble x).length = 8 := by
  rw [packDouble, List.length_reverse, length_beBytes]

/-- The eight bytes of a double determine it. -/
theorem unpackDouble_pack (x : Float) (rest : Bytes) :
    unpackDouble (packDouble x ++ rest) = some x := by
  unfold unpackDouble
  rw [takeExact_append (length_packDouble x), Option.map_some, packDouble, List.reverse_reverse,
    beNat_beBytes_of_lt x.toBits.toNat_lt, UInt64.ofNat_toNat, Float.ofBits_toBits]

end Struct
