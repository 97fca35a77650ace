import Mathlib.Tactic.Tauto
import RoundRobin.Machine.Peripherals

/-!
Registers bit by bit and byte by byte. Main statements: `testBit_setBit`, `testBit_setByte` and
`byte_setByte`, which say what an update leaves of every bit and every byte.
-/

namespace RoundRobin

theorem toBitVec_shiftLeft_of_lt (w : UInt32) {i : UInt32} (h : i < 32) :
    (w <<< i).toBitVec = w.toBitVec <<< i.toNat := by
  have hi : i.toNat < 32 := h
  rw [UInt32.toBitVec_shiftLeft, BitVec.shiftLeft_eq', BitVec.toNat_umod]
  simp [Nat.mod_eq_of_lt hi]

theorem toBitVec_shiftRight_of_lt (w : UInt32) {i : UInt32} (h : i < 32) :
    (w >>> i).toBitVec = w.toBitVec >>> i.toNat := by
  have hi : i.toNat < 32 := h
  rw [UInt32.toBitVec_shiftRight, BitVec.ushiftRight_eq', BitVec.toNat_umod]
  simp [Nat.mod_eq_of_lt hi]

theorem testBit_eq_getLsbD (w : UInt32) {i : UInt32} (h : i < 32) :
    testBit w i = w.toBitVec.getLsbD i.toNat := by
  have hi : i.toNat < 32 := h
  have hw : (w &&& (1 <<< i)).toBitVec = w.toBitVec &&& BitVec.twoPow 32 i.toNat := by
    rw [UInt32.toBitVec_and, toBitVec_shiftLeft_of_lt 1 h, BitVec.twoPow]
    rfl
  have hp : BitVec.twoPow 32 i.toNat ≠ 0#32 := by
    intro he
    simpa [hi] using congrArg (·.getLsbD i.toNat) he
  rw [testBit, Bool.eq_iff_iff, bne_iff_ne, Ne, ← UInt32.toBitVec_inj, hw, BitVec.and_twoPow]
  split
  · next hb => simpa [hb] using hp
  · next hb => simpa using hb

/-- A register is known by its 32 bits. -/
theorem eq_of_testBit {v w : UInt32} (h : ∀ i < 32, testBit v i = testBit w i) : v = w := by
  apply UInt32.toBitVec_inj.mp
  apply BitVec.eq_of_getLsbD_eq
  intro i hi
  have hn : (UInt32.ofNat i).toNat = i := UInt32.toNat_ofNat_of_lt' (Nat.lt_trans hi (by decide))
  have hlt : UInt32.ofNat i < 32 := by
    rw [UInt32.lt_iff_toNat_lt, hn]
    exact hi
  have hb := h (.ofNat i) hlt
  rwa [testBit_eq_getLsbD v hlt, testBit_eq_getLsbD w hlt, hn] at hb

theorem testBit_setBit (w : UInt32) {i j : UInt32} (hi : i < 32) (hj : j < 32) :
    testBit (setBit w i) j = (decide (i = j) || testBit w j) := by
  have hin : i.toNat < 32 := hi
  have hone : (1 : UInt32).toBitVec <<< i.toNat = BitVec.twoPow 32 i.toNat := rfl
  rw [setBit, testBit_eq_getLsbD _ hj, testBit_eq_getLsbD _ hj, UInt32.toBitVec_or,
    toBitVec_shiftLeft_of_lt 1 hi, hone, BitVec.getLsbD_or, BitVec.getLsbD_twoPow, Bool.or_comm]
  simp [hin, UInt32.toNat_inj]

theorem testBit_setBits (w : UInt32) {i j k l : UInt32} (hi : i < 32) (hj : j < 32) (hk : k < 32)
    (hl : l < 32) :
    testBit (setBit (setBit (setBit w i) j) k) l =
      (decide (l = i ∨ l = j ∨ l = k) || testBit w l) := by
  rw [testBit_setBit _ hk hl, testBit_setBit _ hj hl, testBit_setBit _ hi hl, Bool.eq_iff_iff]
  simp only [Bool.or_eq_true, decide_eq_true_eq, eq_comm (b := l)]
  tauto

/-- Setting the same bits once more changes nothing. -/
theorem setBits_idem (w : UInt32) {i j k : UInt32} (hi : i < 32) (hj : j < 32) (hk : k < 32) :
    setBit (setBit (setBit (setBit (setBit (setBit w i) j) k) i) j) k =
      setBit (setBit (setBit w i) j) k := by
  apply eq_of_testBit
  intro l hl
  rw [testBit_setBits _ hi hj hk hl, testBit_setBits _ hi hj hk hl, ← Bool.or_assoc, Bool.or_self]

/-! ## Bytes of a register -/

/-- Byte `i` of a register counts from the lowest. -/
def byte (w i : UInt32) : UInt32 := (w >>> (8 * i)) &&& 0xFF

theorem getLsbD_byteMask (k : Nat) : (255#32).getLsbD k = decide (k < 8) := by
  rw [show (255#32) = BitVec.ofNat 32 (2 ^ 8 - 1) from rfl, BitVec.getLsbD_ofNat,
    Nat.testBit_two_pow_sub_one]
  by_cases h : k < 8
  · simp [h, show k < 32 by omega]
  · simp [h]

theorem getLsbD_of_byte {b : UInt32} (hb : b < 256) {k : Nat} (hk : 8 ≤ k) :
    b.toBitVec.getLsbD k = false := by
  have hpow : 2 ^ 8 ≤ 2 ^ k := Nat.pow_le_pow_right (by decide) hk
  exact Nat.testBit_lt_two_pow (Nat.lt_of_lt_of_le hb hpow)

theorem toNat_eight_mul {i : UInt32} (h : i < 4) : (8 * i).toNat = 8 * i.toNat := by
  have hi : i.toNat < 4 := h
  have hlt : 8 * i.toNat < 2 ^ 32 := by omega
  rw [UInt32.toNat_mul]
  exact Nat.mod_eq_of_lt hlt

theorem eight_mul_lt {i : UInt32} (h : i < 4) : 8 * i < 32 := by
  have hi : i.toNat < 4 := h
  have hlt : (8 * i).toNat < 32 := by
    rw [toNat_eight_mul h]
    omega
  exact hlt

/-- Bit `j` of byte `i` has its place within the register. -/
theorem toNat_place {i j : UInt32} (hi : i < 4) (hj : j < 8) :
    (8 * i + j).toNat = 8 * i.toNat + j.toNat := by
  have hin : i.toNat < 4 := hi
  have hjn : j.toNat < 8 := hj
  rw [UInt32.toNat_add, toNat_eight_mul hi]
  exact Nat.mod_eq_of_lt (by omega)

theorem place_lt {i j : UInt32} (hi : i < 4) (hj : j < 8) : 8 * i + j < 32 := by
  have hin : i.toNat < 4 := hi
  have hjn : j.toNat < 8 := hj
  have hlt : (8 * i + j).toNat < 32 := by
    rw [toNat_place hi hj]
    omega
  exact hlt

theorem testBit_setByte (w : UInt32) {i b j : UInt32} (hi : i < 4) (hb : b < 256) (hj : j < 32) :
    testBit (setByte w i b) j = if j / 8 = i then testBit b (j % 8) else testBit w j := by
  have hjn : j.toNat < 32 := hj
  have hmod : (j % 8).toNat = j.toNat % 8 := rfl
  have hdiv : (j / 8).toNat = j.toNat / 8 := rfl
  have hlt : (j % 8).toNat < 32 := by
    rw [hmod]
    omega
  have hr : j % 8 < 32 := hlt
  have hin : j / 8 = i ↔ 8 * i.toNat ≤ j.toNat ∧ j.toNat < 8 * i.toNat + 8 := by
    rw [← UInt32.toNat_inj, hdiv]
    omega
  simp only [setByte, testBit_eq_getLsbD _ hj, testBit_eq_getLsbD _ hr, UInt32.toBitVec_or,
    UInt32.toBitVec_and, UInt32.toBitVec_not, toBitVec_shiftLeft_of_lt _ (eight_mul_lt hi),
    BitVec.getLsbD_or, BitVec.getLsbD_and, BitVec.getLsbD_not, BitVec.getLsbD_shiftLeft,
    toNat_eight_mul hi, hmod, UInt32.toBitVec_ofNat, getLsbD_byteMask]
  by_cases h : j / 8 = i
  · obtain ⟨hl, hu⟩ := hin.mp h
    have hm : j.toNat % 8 = j.toNat - 8 * i.toNat := by omega
    simp [h, hjn, hm, Nat.not_lt.mpr hl, show j.toNat - 8 * i.toNat < 8 by omega]
  -- Below the byte the shift leaves no bit of `b`, above it `b` has none.
  · rcases Nat.lt_or_ge j.toNat (8 * i.toNat) with hl | hl
    · simp [h, hjn, hl]
    · have hk : 8 ≤ j.toNat - 8 * i.toNat := by
        rw [hin] at h
        omega
      simp [h, hjn, getLsbD_of_byte hb hk, Nat.not_lt.mpr hk]

theorem testBit_byte (w : UInt32) {i j : UInt32} (hi : i < 4) (hj : j < 8) :
    testBit (byte w i) j = testBit w (8 * i + j) := by
  have hjn : j.toNat < 8 := hj
  have hj' : j < 32 := UInt32.lt_trans hj (by decide)
  rw [byte, testBit_eq_getLsbD _ hj', testBit_eq_getLsbD _ (place_lt hi hj), toNat_place hi hj,
    UInt32.toBitVec_and, toBitVec_shiftRight_of_lt w (eight_mul_lt hi), toNat_eight_mul hi,
    BitVec.getLsbD_and, BitVec.getLsbD_ushiftRight, UInt32.toBitVec_ofNat, getLsbD_byteMask]
  simp [hjn]

theorem byte_lt (w i : UInt32) : byte w i < 256 := by
  rw [byte, UInt32.lt_iff_toNat_lt, UInt32.toNat_and]
  exact Nat.lt_of_le_of_lt Nat.and_le_right (by decide)

/-- A byte is known by its eight bits. -/
theorem eq_of_testBit_of_byte {b c : UInt32} (hb : b < 256) (hc : c < 256)
    (h : ∀ i < 8, testBit b i = testBit c i) : b = c := by
  apply eq_of_testBit
  intro i hi
  rcases Nat.lt_or_ge i.toNat 8 with hl | hl
  · exact h i hl
  · rw [testBit_eq_getLsbD b hi, testBit_eq_getLsbD c hi, getLsbD_of_byte hb hl,
      getLsbD_of_byte hc hl]

theorem byte_setByte (w : UInt32) {i k b : UInt32} (hi : i < 4) (hk : k < 4) (hb : b < 256) :
    byte (setByte w i b) k = if k = i then b else byte w k := by
  have hlt : (if k = i then b else byte w k) < 256 := by
    split
    · exact hb
    · exact byte_lt w k
  refine eq_of_testBit_of_byte (byte_lt _ _) hlt fun j hj => ?_
  have hjn : j.toNat < 8 := hj
  have hsum := toNat_place hk hj
  have hdiv : ((8 * k + j) / 8).toNat = (8 * k + j).toNat / 8 := rfl
  have hmod : ((8 * k + j) % 8).toNat = (8 * k + j).toNat % 8 := rfl
  have hquot : (8 * k + j) / 8 = k := by
    rw [← UInt32.toNat_inj, hdiv, hsum]
    omega
  have hrem : (8 * k + j) % 8 = j := by
    rw [← UInt32.toNat_inj, hmod, hsum]
    omega
  rw [testBit_byte _ hk hj, testBit_setByte w hi hb (place_lt hk hj), hquot, hrem]
  split
  · rfl
  · rw [testBit_byte _ hk hj]

/-- Setting the same bytes once more changes nothing. -/
theorem setBytes_idem (w : UInt32) {i k b c : UInt32} (hi : i < 4) (hk : k < 4) (hb : b < 256)
    (hc : c < 256) :
    setByte (setByte (setByte (setByte w i b) k c) i b) k c = setByte (setByte w i b) k c := by
  apply eq_of_testBit
  intro j hj
  simp only [testBit_setByte _ hi hb hj, testBit_setByte _ hk hc hj]
  by_cases hjk : j / 8 = k
  · rw [if_pos hjk, if_pos hjk]
  · simp only [if_neg hjk]
    split <;> rfl

end RoundRobin
