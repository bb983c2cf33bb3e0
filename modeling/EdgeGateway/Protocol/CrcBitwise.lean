import EdgeGateway.Protocol.CrcCode

set_option autoImplicit false

/-! # The checksum bit by bit

The definition of CRC-16/MODBUS, as the header of the source gives it: reflected polynomial
`0xA001`, initial value `0xFFFF`, no final xor, the bits of each byte in wire order. The
table-driven update computes the same value for every byte string (`edgeCrc16_eq_bitwise`).
-/

namespace EdgeGateway

/-- One bit of the message: the register moves down, and the polynomial is subtracted when the bit
that falls out differs from the message bit. -/
def crcBit (crc : UInt16) (bit : Bool) : UInt16 :=
  if (crc &&& 1 == 1) != bit then (crc >>> 1) ^^^ 0xA001 else crc >>> 1

/-- The checksum by definition. -/
def crcBitwise (data : List UInt8) : UInt16 := (wireBits data).foldl crcBit 0xFFFF

theorem and_one_eq (x : UInt16) : (x &&& 1 == 1) = x.toBitVec.getLsbD 0 := by
  have hone : x &&& 1 = 1 ↔ x.toBitVec &&& 1#16 = 1#16 := UInt16.toBitVec_inj.symm
  have hbit : x.toBitVec &&& 1#16 = 1#16 ↔ x.toBitVec.getLsbD 0 = true := by
    rw [BitVec.and_one_eq_setWidth_ofBool_getLsbD]
    cases x.toBitVec.getLsbD 0 <;> decide
  by_cases h : x.toBitVec.getLsbD 0
  · rw [h, beq_iff_eq]
    exact hone.mpr (hbit.mpr h)
  · rw [Bool.eq_false_iff.mpr h, beq_eq_false_iff_ne]
    exact fun heq => h (hbit.mp (hone.mp heq))

/-- A message bit is added to the lowest bit before the shift. -/
theorem crcBit_eq (crc : UInt16) (bit : Bool) :
    crcBit crc bit = crcShift (crc ^^^ if bit then 1 else 0) := by
  have hdown : (crc ^^^ 1) >>> 1 = crc >>> 1 := by
    rw [UInt16.shiftRight_xor]
    exact UInt16.xor_zero
  have hlow : (crc ^^^ 1).toBitVec.getLsbD 0 = !crc.toBitVec.getLsbD 0 := by
    rw [UInt16.toBitVec_xor, BitVec.getLsbD_xor]
    exact Bool.xor_true _
  cases bit with
  | false =>
      rw [if_neg (by decide), UInt16.xor_zero, crcBit, crcShift, and_one_eq, Bool.bne_false]
  | true =>
      rw [if_pos rfl, crcBit, crcShift, and_one_eq, hlow, hdown, Bool.bne_true]

theorem crcCells_bit (crc : UInt16) (bit : Bool) :
    crcCells (crcBit crc bit) = crcRegister.feed (crcCells crc) (bitSymbol bit) := by
  have hone : crcCells (if bit then 1 else 0) = Pi.single 0 (bitSymbol bit) := by
    cases bit <;> decide
  rw [crcBit_eq, crcCells_shift, crcCells_xor, hone, ShiftRegister.feed]

theorem crcCells_bits (bits : List Bool) (crc : UInt16) :
    crcCells (bits.foldl crcBit crc) = crcRegister.run (crcCells crc) (bits.map bitSymbol) := by
  induction bits generalizing crc with
  | nil => rfl
  | cons bit bits ih =>
      rw [List.foldl_cons, ih, crcCells_bit, List.map_cons, ShiftRegister.run_cons]

/-- Eight message bits are one step through the table. -/
theorem foldl_update_eq_bits (bytes : List UInt8) (crc : UInt16) :
    bytes.foldl edgeCrc16Update crc = (wireBits bytes).foldl crcBit crc := by
  apply crcCells_inj.mp
  rw [crcCells_foldl, crcCells_bits]

/-- **The table computes the definition**: on every byte string the table-driven checksum is the
bitwise one, it can be continued from any split of the string, and the string with its checksum,
low byte first, has checksum zero. -/
theorem edgeCrc16_eq_bitwise (data : List UInt8) :
    edgeCrc16 data = crcBitwise data ∧
    (∀ front back : List UInt8,
      back.foldl edgeCrc16Update (edgeCrc16 front) = edgeCrc16 (front ++ back)) ∧
    edgeCrc16 (data ++ [(edgeCrc16 data &&& 0xFF).toUInt8, (edgeCrc16 data >>> 8).toUInt8]) =
      0 := by
  refine ⟨foldl_update_eq_bits _ _, ?_, ?_⟩
  · intro front back
    exact List.foldl_append.symm
  · rw [toUInt8_and_255]
    calc edgeCrc16 (data ++ [(edgeCrc16 data).toUInt8, (edgeCrc16 data >>> 8).toUInt8])
        = [(edgeCrc16 data).toUInt8, (edgeCrc16 data >>> 8).toUInt8].foldl edgeCrc16Update
            (edgeCrc16 data) := List.foldl_append
      _ = 0 := (foldl_crc_eq_zero _ _ _).mpr (crc_bytes_join _)

/-- The check value of the nine digits. -/
example : crcBitwise [0x31, 0x32, 0x33, 0x34, 0x35, 0x36, 0x37, 0x38, 0x39] = 0x4B37 := by
  decide +kernel

end EdgeGateway
