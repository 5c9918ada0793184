import AsyncSqlite.Data.ShiftRegister
import AsyncSqlite.Remote.Serial

/-!
# AsyncSqlite.Remote.CrcLoop — the checksum without its table

The other `Crc16CalcBlock` of `crc16.h`, which a build without `USE_CRC_TABLE` takes.
Its two registers differ by a shift register that starts with the byte on top of the
checksum (`crc16Rounds_eq`), the table holds what eight places make of each byte
(`crcccittTable_eq`), and the other byte of the checksum only moves.
-/

namespace AsyncSqlite

/-- `POLY` -/
def crc16Poly : UInt16 := 0x1021

/-- The body of the inner loop: `crc` and `data` after it. -/
def crc16Round (crc data : UInt16) : UInt16 × UInt16 :=
  (if (data ^^^ crc) &&& 0x8000 ≠ 0 then crc <<< 1 ^^^ crc16Poly else crc <<< 1, data <<< 1)

/-- `for (int i = 8; i > 0; i--)` -/
def crc16Rounds : ℕ → UInt16 → UInt16 → UInt16
  | 0, crc, _ => crc
  | i + 1, crc, data => crc16Rounds i (crc16Round crc data).1 (crc16Round crc data).2

/-- One byte of the loop. -/
def crc16LoopStep (crc : UInt16) (b : UInt8) : UInt16 := crc16Rounds 8 crc (b.toUInt16 <<< 8)

/-- `Crc16CalcBlock` without `USE_CRC_TABLE` -/
def crc16CalcBlockLoop (msg : List UInt8) (crc : UInt16) : UInt16 := msg.foldl crc16LoopStep crc

theorem crc16CalcBlockLoop_append (a b : List UInt8) (crc : UInt16) :
    crc16CalcBlockLoop (a ++ b) crc = crc16CalcBlockLoop b (crc16CalcBlockLoop a crc) :=
  List.foldl_append

/-! ## The two registers as one -/

/-- `& 0x8000` -/
theorem and_8000_ne_zero (x : UInt16) : x &&& 0x8000 ≠ 0 ↔ x.toBitVec.msb = true := by
  have htwo : (0x8000 : UInt16).toBitVec = BitVec.twoPow 16 15 := by decide
  rw [ne_eq, ← UInt16.toBitVec_inj, UInt16.toBitVec_and, htwo, BitVec.and_twoPow,
    BitVec.msb_eq_getLsbD_last]
  cases x.toBitVec.getLsbD 15 <;> decide

theorem toBitVec_shiftLeft_one (x : UInt16) : (x <<< 1).toBitVec = x.toBitVec <<< 1 := rfl

/-- Both registers move, and the polynomial goes into one of them. -/
theorem crc16Round_xor (crc data : UInt16) :
    (crc16Round crc data).1.toBitVec ^^^ (crc16Round crc data).2.toBitVec =
      shiftOut crc16Poly.toBitVec (crc.toBitVec ^^^ data.toBitVec) := by
  have hmsb : (data ^^^ crc) &&& 0x8000 ≠ 0 ↔ (crc.toBitVec ^^^ data.toBitVec).msb = true := by
    rw [and_8000_ne_zero, UInt16.toBitVec_xor, BitVec.xor_comm]
  simp only [crc16Round, shiftOut, hmsb, toBitVec_shiftLeft_one]
  split
  · rw [UInt16.toBitVec_xor, toBitVec_shiftLeft_one, BitVec.xor_assoc,
      BitVec.xor_comm crc16Poly.toBitVec, ← BitVec.xor_assoc, BitVec.shiftLeft_xor_distrib]
  · rw [toBitVec_shiftLeft_one, BitVec.shiftLeft_xor_distrib]

/-- What is left in `data` stays between the checksum and the shift register. -/
theorem crc16Rounds_xor (i : ℕ) (crc data : UInt16) :
    (crc16Rounds i crc data).toBitVec ^^^ data.toBitVec <<< i =
      shiftOuts crc16Poly.toBitVec i (crc.toBitVec ^^^ data.toBitVec) := by
  induction i generalizing crc data with
  | zero => simp [crc16Rounds]
  | succ i ih =>
    rw [crc16Rounds, shiftOuts_succ, ← crc16Round_xor, ← ih]
    show _ = _ ^^^ (data <<< 1).toBitVec <<< i
    rw [toBitVec_shiftLeft_one, ← BitVec.shiftLeft_add, Nat.add_comm]

theorem toBitVec_byte_shiftLeft (b : UInt8) :
    (b.toUInt16 <<< 8).toBitVec = b.toBitVec.setWidth 16 <<< 8 := rfl

/-- After eight places nothing of the byte is left. -/
theorem crc16LoopStep_toBitVec (crc : UInt16) (b : UInt8) :
    (crc16LoopStep crc b).toBitVec =
      shiftOuts crc16Poly.toBitVec 8 (crc.toBitVec ^^^ b.toBitVec.setWidth 16 <<< 8) := by
  have hgone : b.toBitVec.setWidth 16 <<< 8 <<< 8 = 0#16 := by
    rw [← BitVec.shiftLeft_add]
    exact BitVec.shiftLeft_eq_zero (by decide)
  rw [← toBitVec_byte_shiftLeft, ← crc16Rounds_xor, toBitVec_byte_shiftLeft, hgone,
    BitVec.xor_zero, crc16LoopStep]

/-! ## The table -/

/-- Every entry is what eight places make of its index. -/
theorem crcccittTable_eq : ∀ i < 256, (crcccittTable.getD i 0).toBitVec =
    shiftOuts crc16Poly.toBitVec 8 (BitVec.ofNat 16 i <<< 8) := by
  decide +kernel

/-- The index, as a register. -/
theorem crc16_index_eq (crc : UInt16) (b : UInt8) :
    BitVec.ofNat 16 ((crc >>> 8).toNat ^^^ b.toNat) =
      crc.toBitVec >>> 8 ^^^ b.toBitVec.setWidth 16 := by
  apply BitVec.eq_of_toNat_eq
  have hlt := crc16_index_lt crc b
  rw [length_crcccittTable] at hlt
  rw [BitVec.toNat_ofNat, Nat.mod_eq_of_lt (by omega), BitVec.toNat_xor, BitVec.toNat_setWidth]
  rw [Nat.mod_eq_of_lt (show b.toBitVec.toNat < 2 ^ 16 by have := b.toNat_lt; omega)]
  rfl

/-- The byte that is looked up, on top of the one that only moves. -/
theorem crc16_split (crc b : BitVec 16) :
    crc ^^^ b <<< 8 = (crc >>> 8 ^^^ b) <<< 8 ^^^ (crc.setWidth 8).setWidth 16 := by
  apply BitVec.eq_of_getLsbD_eq
  intro i hi
  simp only [BitVec.getLsbD_xor, BitVec.getLsbD_shiftLeft, BitVec.getLsbD_ushiftRight,
    BitVec.getLsbD_setWidth]
  rcases Nat.lt_or_ge i 8 with hlow | hhigh
  · simp [hi, hlow]
  · have hsum : 8 + (i - 8) = i := by omega
    have hnot : ¬ i < 8 := by omega
    simp [hi, hnot, hsum]

/-- The lower byte leaves no one on its way up. -/
theorem shiftOuts_lower (crc : BitVec 16) :
    shiftOuts crc16Poly.toBitVec 8 ((crc.setWidth 8).setWidth 16) = crc <<< 8 := by
  have hclear : LeadingClear 8 ((crc.setWidth 8).setWidth 16) := by
    intro i hi
    rw [BitVec.getMsbD_eq_getLsbD, BitVec.getLsbD_setWidth, BitVec.getLsbD_setWidth]
    have hnot : ¬ 16 - 1 - i < 8 := by omega
    simp [hnot]
  rw [shiftOuts_of_clear _ hclear]
  apply BitVec.eq_of_getLsbD_eq
  intro i hi
  simp only [BitVec.getLsbD_shiftLeft, BitVec.getLsbD_setWidth]
  rcases Nat.lt_or_ge i 8 with hlow | hhigh
  · simp [hlow]
  · have hsub : i - 8 < 8 := by omega
    have hsub' : i - 8 < 16 := by omega
    simp [hsub, hsub']

theorem crc16LoopStep_eq (crc : UInt16) (b : UInt8) : crc16LoopStep crc b = crc16Step crc b := by
  have hindex : (crc >>> 8).toNat ^^^ b.toNat < 256 := by
    rw [← length_crcccittTable]
    exact crc16_index_lt crc b
  apply UInt16.toBitVec_inj.mp
  calc (crc16LoopStep crc b).toBitVec
      = shiftOuts crc16Poly.toBitVec 8 (crc.toBitVec ^^^ b.toBitVec.setWidth 16 <<< 8) :=
        crc16LoopStep_toBitVec crc b
    _ = shiftOuts crc16Poly.toBitVec 8 (BitVec.ofNat 16 ((crc >>> 8).toNat ^^^ b.toNat) <<< 8) ^^^
          crc.toBitVec <<< 8 := by
        rw [crc16_split, shiftOuts_xor, shiftOuts_lower, crc16_index_eq]
    _ = (crcccittTable.getD ((crc >>> 8).toNat ^^^ b.toNat) 0).toBitVec ^^^
          crc.toBitVec <<< 8 := by
        rw [crcccittTable_eq _ hindex]
    _ = (crc16Step crc b).toBitVec := by
        rw [BitVec.xor_comm]
        rfl

/-! ## The two builds -/

theorem crc16CalcBlockLoop_eq (msg : List UInt8) (crc : UInt16) :
    crc16CalcBlockLoop msg crc = crc16CalcBlock msg crc := by
  induction msg generalizing crc with
  | nil => rfl
  | cons b msg ih =>
    show crc16CalcBlockLoop msg (crc16LoopStep crc b) = crc16CalcBlock msg (crc16Step crc b)
    rw [crc16LoopStep_eq, ih]

/-- Both builds compute the same checksum of every message, and the check of a receiver
of either build, which takes header and payload one after the other, passes with the
checksum that a sender of the other build has put behind the whole packet. -/
theorem crc16_builds_agree :
    (∀ (msg : List UInt8) (crc : UInt16), crc16CalcBlockLoop msg crc = crc16CalcBlock msg crc) ∧
    ∀ header payload : List UInt8,
      SerialTransport.crcOfBytes (SerialTransport.crcBytes
          (crc16CalcBlockLoop (header ++ payload) 0xFFFF)) =
        crc16CalcBlock payload (crc16CalcBlock header 0xFFFF) ∧
      SerialTransport.crcOfBytes (SerialTransport.crcBytes
          (crc16CalcBlock (header ++ payload) 0xFFFF)) =
        crc16CalcBlockLoop payload (crc16CalcBlockLoop header 0xFFFF) := by
  constructor
  · exact crc16CalcBlockLoop_eq
  · intro header payload
    constructor
    · rw [SerialTransport.crcOfBytes_crcBytes, crc16CalcBlockLoop_eq, crc16CalcBlock_append]
    · rw [SerialTransport.crcOfBytes_crcBytes, ← crc16CalcBlockLoop_eq, crc16CalcBlockLoop_append]

end AsyncSqlite
