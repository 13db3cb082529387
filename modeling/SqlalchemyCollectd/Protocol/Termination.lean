import SqlalchemyCollectd.Protocol.Unpacker

/-!
# SqlalchemyCollectd.Protocol.Termination

When the part loop of `MessageUnpacker._unpack_packet` ends.

A handler sees the datagram from the start of its part on, so one iteration is a
function of the *remaining bytes* (`unpackHead`), and the loop is a walk over
suffixes of the datagram. It gets stuck in exactly one way: a part that declares
length 0 and does not raise is handled again and again (`Stalls`).
-/

namespace SqlalchemyCollectd

open Struct

/-! ### One iteration -/

theorem unpackPart_ok {buf : Bytes} {s : PacketState} {length : ℕ} {store : Parts → Parts}
    (h : unpackHead (buf.drop s.pos) = .ok (length, store)) :
    unpackPart buf s = .ok { pos := s.pos + length, result := store s.result } := by
  unfold unpackPart
  rw [h]
  rfl

theorem unpackPart_error {buf : Bytes} {s : PacketState} {e : PyError}
    (h : unpackHead (buf.drop s.pos) = .error e) : unpackPart buf s = .error e := by
  unfold unpackPart
  rw [h]
  rfl

theorem unpackLoop_done {buf : Bytes} {s : PacketState} (h : buf.length ≤ s.pos) (fuel : ℕ) :
    unpackLoop buf fuel s = some (.ok s.result) := by
  unfold unpackLoop
  rw [if_neg (not_lt.mpr h)]

theorem unpackLoop_zero {buf : Bytes} {s : PacketState} (h : s.pos < buf.length) :
    unpackLoop buf 0 s = none := by
  unfold unpackLoop
  rw [if_pos h]

theorem unpackLoop_ok {buf : Bytes} {s : PacketState} {length : ℕ} {store : Parts → Parts}
    (hpos : s.pos < buf.length) (h : unpackHead (buf.drop s.pos) = .ok (length, store))
    (fuel : ℕ) :
    unpackLoop buf (fuel + 1) s =
      unpackLoop buf fuel { pos := s.pos + length, result := store s.result } := by
  conv_lhs => unfold unpackLoop
  rw [if_pos hpos, unpackPart_ok h]

theorem unpackLoop_error {buf : Bytes} {s : PacketState} {e : PyError}
    (hpos : s.pos < buf.length) (h : unpackHead (buf.drop s.pos) = .error e) (fuel : ℕ) :
    unpackLoop buf (fuel + 1) s = some (.error e) := by
  unfold unpackLoop
  rw [if_pos hpos, unpackPart_error h]

/-- More fuel does not change the answer of a loop that ended. -/
theorem unpackLoop_mono {buf : Bytes} {r : Except PyError Parts} :
    ∀ {fuel fuel' : ℕ} {s : PacketState}, fuel ≤ fuel' → unpackLoop buf fuel s = some r →
      unpackLoop buf fuel' s = some r := by
  intro fuel
  induction fuel with
  | zero =>
      intro fuel' s _ h
      by_cases hpos : s.pos < buf.length
      · rw [unpackLoop_zero hpos] at h
        cases h
      · rw [unpackLoop_done (not_lt.mp hpos)] at h ⊢
        exact h
  | succ fuel ih =>
      intro fuel' s hle h
      obtain ⟨fuel', rfl⟩ := Nat.exists_eq_add_of_le' (Nat.one_le_of_lt hle)
      by_cases hpos : s.pos < buf.length
      · cases hhead : unpackHead (buf.drop s.pos) with
        | error e =>
            rw [unpackLoop_error hpos hhead] at h ⊢
            exact h
        | ok part =>
            rw [unpackLoop_ok hpos hhead] at h ⊢
            exact ih (Nat.le_of_succ_le_succ hle) h
      · rw [unpackLoop_done (not_lt.mp hpos)] at h ⊢
        exact h

/-! ### Getting stuck -/

/-- The declared length of the part at the head of a buffer, provided it is skipped
or decoded without an error. -/
def partLength? (buf : Bytes) : Option ℕ :=
  match unpackHead buf with
  | .ok (length, _) => some length
  | .error _ => none

theorem partLength?_eq_some_iff {buf : Bytes} {n : ℕ} :
    partLength? buf = some n ↔ ∃ store, unpackHead buf = .ok (n, store) := by
  unfold partLength?
  cases h : unpackHead buf with
  | error e => simp
  | ok part => simp [Prod.ext_iff, eq_comm]

/-- Hopping over declared lengths from the head of the buffer, past parts that are
skipped or decoded without an error, leads to such a part that declares length 0. -/
inductive Stalls : Bytes → Prop
  | here {buf : Bytes} : partLength? buf = some 0 → Stalls buf
  | later {buf : Bytes} {n : ℕ} :
      partLength? buf = some n → 0 < n → Stalls (buf.drop n) → Stalls buf

/-- The loop ends on this datagram: it returns or raises after finitely many
iterations. -/
def Terminates (buf : Bytes) : Prop := ∃ fuel, (unpackLoop buf fuel {}).isSome

/-- A part needs a header, so there is none in an empty buffer. -/
theorem lt_length_of_partLength? {buf : Bytes} {s : PacketState} {n : ℕ}
    (h : partLength? (buf.drop s.pos) = some n) : s.pos < buf.length := by
  by_contra hpos
  rw [List.drop_eq_nil_of_le (not_lt.mp hpos)] at h
  cases h

theorem not_isSome_of_stalls {buf rest : Bytes} (h : Stalls rest) :
    ∀ (fuel : ℕ) (s : PacketState), buf.drop s.pos = rest →
      unpackLoop buf fuel s = none := by
  induction h with
  | @here rest hzero =>
      -- the position does not move, so the same part is met with less fuel
      intro fuel
      induction fuel with
      | zero =>
          intro s hs
          exact unpackLoop_zero (lt_length_of_partLength? (hs ▸ hzero))
      | succ fuel ih =>
          intro s hs
          obtain ⟨store, hhead⟩ := partLength?_eq_some_iff.mp hzero
          have hpos := lt_length_of_partLength? (hs ▸ hzero)
          rw [unpackLoop_ok hpos (hs ▸ hhead)]
          exact ih _ (by rw [Nat.add_zero]; exact hs)
  | @later rest n hlen _ _ ih =>
      intro fuel s hs
      obtain ⟨store, hhead⟩ := partLength?_eq_some_iff.mp hlen
      have hpos := lt_length_of_partLength? (hs ▸ hlen)
      cases fuel with
      | zero => exact unpackLoop_zero hpos
      | succ fuel =>
          rw [unpackLoop_ok hpos (hs ▸ hhead)]
          exact ih fuel _ (by rw [← List.drop_drop, hs])

/-- Without a stall every iteration that does not raise advances, so one iteration
for each remaining byte is enough. -/
theorem isSome_of_not_stalls {buf : Bytes} :
    ∀ (fuel : ℕ) (s : PacketState), buf.length ≤ s.pos + fuel → ¬Stalls (buf.drop s.pos) →
      (unpackLoop buf fuel s).isSome := by
  intro fuel
  induction fuel with
  | zero =>
      intro s hfuel _
      rw [unpackLoop_done (by omega)]
      rfl
  | succ fuel ih =>
      intro s hfuel hstall
      by_cases hpos : s.pos < buf.length
      · cases hhead : unpackHead (buf.drop s.pos) with
        | error e =>
            rw [unpackLoop_error hpos hhead]
            rfl
        | ok part =>
            obtain ⟨n, store⟩ := part
            have hlen : partLength? (buf.drop s.pos) = some n :=
              partLength?_eq_some_iff.mpr ⟨store, hhead⟩
            have hn : 0 < n := Nat.pos_of_ne_zero fun hzero => hstall (.here (hzero ▸ hlen))
            rw [unpackLoop_ok hpos hhead]
            refine ih _ (by dsimp only; omega) fun hrest => hstall (.later hlen hn ?_)
            rwa [List.drop_drop]
      · rw [unpackLoop_done (not_lt.mp hpos)]
        rfl

/-- The fuel of `unpackPacket` is enough for every datagram on which the loop ends. -/
theorem terminates_iff_unpackPacket (buf : Bytes) :
    Terminates buf ↔ (unpackPacket buf).isSome := by
  constructor
  · intro ⟨fuel, h⟩
    refine isSome_of_not_stalls buf.length {} (by simp) fun hstall => ?_
    rw [not_isSome_of_stalls hstall fuel {} rfl] at h
    cases h
  · exact fun h => ⟨buf.length, h⟩

/-- An answer of the loop, with whatever fuel, is the answer of `unpackPacket`. -/
theorem unpackPacket_of_unpackLoop {buf : Bytes} {fuel : ℕ} {r : Except PyError Parts}
    (h : unpackLoop buf fuel {} = some r) : unpackPacket buf = some r := by
  obtain ⟨r', hr'⟩ := Option.isSome_iff_exists.mp
    ((terminates_iff_unpackPacket buf).mp ⟨fuel, by rw [h]; rfl⟩)
  have hmax := unpackLoop_mono (Nat.le_max_left fuel buf.length) h
  rw [unpackLoop_mono (Nat.le_max_right fuel buf.length) hr'] at hmax
  rw [hr', hmax]

/-! ### The part loop ends unless it stalls -/

/-- **Termination of the part loop.** -/
theorem unpackPacket_terminates_iff (buf : Bytes) : Terminates buf ↔ ¬Stalls buf := by
  constructor
  · intro ⟨fuel, h⟩ hstall
    rw [not_isSome_of_stalls hstall fuel {} rfl] at h
    cases h
  · exact fun hstall => ⟨buf.length, isSome_of_not_stalls buf.length {} (by simp) hstall⟩

/-- A part with an unknown code and length 0 keeps the loop running for ever. -/
theorem unpackPacket_diverges : ¬Terminates [0x00, 0xff, 0x00, 0x00] := by
  have hstall : Stalls [0x00, 0xff, 0x00, 0x00] := .here (by decide +kernel)
  intro ⟨fuel, h⟩
  rw [not_isSome_of_stalls hstall fuel {} rfl] at h
  cases h

end SqlalchemyCollectd
