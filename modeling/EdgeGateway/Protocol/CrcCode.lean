import EdgeGateway.Basic.ShiftRegister
import EdgeGateway.Protocol.FrameSound

set_option autoImplicit false

/-! # The checksum as a cyclic code

One table step of `edge_crc16_update` is eight steps of the shift register with the reflected
polynomial `0xA001`, one for each bit of the byte, the least significant first
(`crcCells_update`). A message with its two checksum bytes takes the register to zero, and an error
pattern goes unnoticed exactly when it does so itself (`corrupt_accepted_iff`). Short bursts and
odd numbers of flipped bits never do.
-/

namespace EdgeGateway

/-! ## The register -/

/-- A bit as a symbol. -/
def bitSymbol (b : Bool) : ZMod 2 := if b then 1 else 0

/-- The bits of a checksum, the least significant in cell `0`. -/
def crcCells (x : UInt16) : Fin 16 → ZMod 2 := fun i => bitSymbol (x.toBitVec.getLsbD i)

def crcRegister : ShiftRegister (ZMod 2) 15 where
  tap := crcCells 0xA001
  tap_last := by decide

theorem bitSymbol_xor (a b : Bool) : bitSymbol (a ^^ b) = bitSymbol a + bitSymbol b := by
  cases a <;> cases b <;> rfl

theorem bitSymbol_inj {a b : Bool} : bitSymbol a = bitSymbol b ↔ a = b := by
  cases a <;> cases b <;> decide

theorem bitSymbol_eq_zero {b : Bool} : bitSymbol b = 0 ↔ b = false := by
  cases b <;> decide

theorem crcCells_xor (x y : UInt16) : crcCells (x ^^^ y) = crcCells x + crcCells y := by
  funext i
  simp [crcCells, bitSymbol_xor]

@[simp] theorem crcCells_zero : crcCells 0 = 0 := by
  funext i
  simp [crcCells, bitSymbol]

theorem crcCells_inj {x y : UInt16} : crcCells x = crcCells y ↔ x = y := by
  constructor
  · intro h
    apply UInt16.toBitVec_inj.mp
    apply BitVec.eq_of_getLsbD_eq
    intro i hi
    exact bitSymbol_inj.mp (congrFun h ⟨i, hi⟩)
  · exact congrArg crcCells

theorem crcCells_eq_zero {x : UInt16} : crcCells x = 0 ↔ x = 0 := by
  rw [← crcCells_zero, crcCells_inj]

/-- One step of the register on a checksum. -/
def crcShift (x : UInt16) : UInt16 :=
  if x.toBitVec.getLsbD 0 then (x >>> 1) ^^^ 0xA001 else x >>> 1

theorem crcCells_shift (x : UInt16) : crcCells (crcShift x) = crcRegister.shift (crcCells x) := by
  have hdown : crcCells (x >>> 1) = Fin.snoc (fun j : Fin 15 => crcCells x j.succ) 0 := by
    funext i
    refine Fin.lastCases ?_ (fun j => ?_) i
    · rw [Fin.snoc_last]
      simp [crcCells, bitSymbol]
    · simp [crcCells, Nat.add_comm]
  funext i
  unfold crcShift
  by_cases h : x.toBitVec.getLsbD 0
  · have h0 : crcCells x 0 = 1 := by simp [crcCells, bitSymbol, h]
    rw [if_pos h, crcCells_xor, hdown, ShiftRegister.shift, h0, one_mul]
    rfl
  · have h0 : crcCells x 0 = 0 := bitSymbol_eq_zero.mpr (Bool.eq_false_of_not_eq_true h)
    rw [if_neg h, hdown, ShiftRegister.shift, h0, zero_mul, add_zero]

theorem crcCells_iterate (n : Nat) (x : UInt16) :
    crcCells (crcShift^[n] x) = crcRegister.shift^[n] (crcCells x) := by
  induction n generalizing x with
  | zero => rfl
  | succ n ih => rw [Function.iterate_succ_apply, ih, crcCells_shift]; rfl

theorem crcShift_iterate_xor (n : Nat) (x y : UInt16) :
    crcShift^[n] (x ^^^ y) = crcShift^[n] x ^^^ crcShift^[n] y := by
  apply crcCells_inj.mp
  simp only [crcCells_xor, crcCells_iterate, ShiftRegister.iterate_add]

/-! ## The table -/

theorem kCrc16Table_eq : ∀ i < 256, kCrc16Table.getD i 0 = crcShift^[8] (UInt16.ofNat i) := by
  decide +kernel

/-- A checksum with a clear low byte only moves down. -/
theorem crcShift_high (x : UInt16) (h : ∀ i, i < 8 → x.toBitVec.getLsbD i = false) :
    ∀ n, n ≤ 8 → (crcShift^[n] x).toBitVec = x.toBitVec >>> n := by
  intro n
  induction n with
  | zero => intro _; simp
  | succ n ih =>
      intro hn
      have hprev := ih (by omega)
      have hlow : (crcShift^[n] x).toBitVec.getLsbD 0 = false := by
        rw [hprev]
        simpa using h n (by omega)
      rw [Function.iterate_succ_apply', crcShift, if_neg (Bool.eq_false_iff.mp hlow),
        UInt16.toBitVec_shiftRight, hprev, BitVec.shiftRight_add]
      rfl

theorem lowByte_bit : ∀ i < 16, (0xFF : UInt16).toBitVec.getLsbD i = decide (i < 8) := by
  decide

theorem highByte_bit : ∀ i < 16, (0xFF00 : UInt16).toBitVec.getLsbD i = decide (8 ≤ i) := by
  decide

theorem byte_bit (byte : UInt8) {i : Nat} (h : 8 ≤ i) :
    byte.toUInt16.toBitVec.getLsbD i = false := by
  rw [UInt8.toBitVec_toUInt16, BitVec.getLsbD_setWidth, BitVec.getLsbD_of_ge _ _ h, Bool.and_false]

/-- **One table step is eight register steps**: the low byte goes through the table, the high
byte only moves down. -/
theorem edgeCrc16Update_eq (crc : UInt16) (byte : UInt8) :
    edgeCrc16Update crc byte = crcShift^[8] (crc ^^^ byte.toUInt16) := by
  let x := crc ^^^ byte.toUInt16
  have hsplit : x = (x &&& 0xFF00) ^^^ (x &&& 0xFF) := by
    apply UInt16.toBitVec_inj.mp
    apply BitVec.eq_of_getLsbD_eq
    intro i hi
    simp only [UInt16.toBitVec_xor, UInt16.toBitVec_and, BitVec.getLsbD_xor, BitVec.getLsbD_and,
      lowByte_bit i hi, highByte_bit i hi]
    by_cases h8 : i < 8
    · simp [h8, Nat.not_le.mpr h8]
    · simp [h8, Nat.not_lt.mp h8]
  have hhigh : crcShift^[8] (x &&& 0xFF00) = crc >>> 8 := by
    have hclear : ∀ i, i < 8 → (x &&& 0xFF00).toBitVec.getLsbD i = false := by
      intro i hi
      rw [UInt16.toBitVec_and, BitVec.getLsbD_and, highByte_bit i (by omega),
        decide_eq_false (by omega), Bool.and_false]
    apply UInt16.toBitVec_inj.mp
    rw [crcShift_high _ hclear 8 (Nat.le_refl _), UInt16.toBitVec_shiftRight]
    apply BitVec.eq_of_getLsbD_eq
    intro i hi
    show ((x &&& 0xFF00).toBitVec >>> 8).getLsbD i = (crc.toBitVec >>> 8).getLsbD i
    simp only [BitVec.getLsbD_ushiftRight, UInt16.toBitVec_and, BitVec.getLsbD_and]
    by_cases h8 : 8 + i < 16
    · rw [highByte_bit _ h8, UInt16.toBitVec_xor, BitVec.getLsbD_xor, byte_bit byte (by omega)]
      simp
    · simp [BitVec.getLsbD_of_ge _ (8 + i) (Nat.not_lt.mp h8)]
  have hlow : crcShift^[8] (x &&& 0xFF) = kCrc16Table.getD (x &&& 0xFF).toNat 0 := by
    have hlt : (x &&& 0xFF).toNat < 256 := by
      have hmod : (x &&& 0xFF).toNat = x.toNat % 256 := Nat.and_two_pow_sub_one_eq_mod x.toNat 8
      omega
    rw [kCrc16Table_eq _ hlt, UInt16.ofNat_toNat]
  calc edgeCrc16Update crc byte
      = crcShift^[8] (x &&& 0xFF00) ^^^ crcShift^[8] (x &&& 0xFF) := by
        rw [hhigh, hlow]
        rfl
    _ = crcShift^[8] x := by rw [← crcShift_iterate_xor, ← hsplit]

/-! ## Bytes as bits of the wire -/

/-- The bits of a byte in the order they are sent, the least significant first. -/
def byteBits (byte : UInt8) : List Bool := List.ofFn fun i : Fin 8 => byte.toBitVec.getLsbD i

def wireBits (bytes : List UInt8) : List Bool := bytes.flatMap byteBits

@[simp] theorem byteBits_length (byte : UInt8) : (byteBits byte).length = 8 := List.length_ofFn

@[simp] theorem wireBits_nil : wireBits [] = [] := rfl

theorem wireBits_cons (byte : UInt8) (bytes : List UInt8) :
    wireBits (byte :: bytes) = byteBits byte ++ wireBits bytes := rfl

theorem load_byteBits (byte : UInt8) :
    ShiftRegister.load 15 ((byteBits byte).map bitSymbol) = crcCells byte.toUInt16 := by
  funext i
  rw [ShiftRegister.load, crcCells]
  by_cases h : i.val < 8
  · rw [List.getD_eq_getElem _ _ (by simpa using h), List.getElem_map]
    simp only [byteBits, List.getElem_ofFn, UInt8.toBitVec_toUInt16]
    rw [BitVec.getLsbD_setWidth, decide_eq_true (by omega), Bool.true_and]
  · rw [List.getD_eq_default _ _ (by simpa using h), byte_bit byte (by omega)]
    rfl

/-- A byte that reaches the checksum is eight symbols for the register. -/
theorem crcCells_update (crc : UInt16) (byte : UInt8) :
    crcCells (edgeCrc16Update crc byte)
      = crcRegister.run (crcCells crc) ((byteBits byte).map bitSymbol) := by
  rw [edgeCrc16Update_eq, crcCells_iterate, crcCells_xor,
    ShiftRegister.run_eq_iterate _ _ (by simp), load_byteBits]
  simp

theorem crcCells_foldl (bytes : List UInt8) (crc : UInt16) :
    crcCells (bytes.foldl edgeCrc16Update crc)
      = crcRegister.run (crcCells crc) ((wireBits bytes).map bitSymbol) := by
  induction bytes generalizing crc with
  | nil => rfl
  | cons byte bytes ih =>
      rw [List.foldl_cons, ih, crcCells_update, wireBits_cons, List.map_append,
        ShiftRegister.run_append]

/-! ## Error patterns -/

/-- The bytes with the bits of `errors` flipped. -/
def corrupt (bytes errors : List UInt8) : List UInt8 := List.zipWith (· ^^^ ·) bytes errors

theorem update_xor (c d : UInt16) (a b : UInt8) :
    edgeCrc16Update (c ^^^ d) (a ^^^ b) = edgeCrc16Update c a ^^^ edgeCrc16Update d b := by
  simp only [edgeCrc16Update_eq, ← crcShift_iterate_xor]
  congr 1
  calc c ^^^ d ^^^ (a ^^^ b).toUInt16
      = c ^^^ (d ^^^ (a.toUInt16 ^^^ b.toUInt16)) := by rw [UInt8.toUInt16_xor, UInt16.xor_assoc]
    _ = c ^^^ (a.toUInt16 ^^^ (d ^^^ b.toUInt16)) := by
      rw [← UInt16.xor_assoc d, UInt16.xor_comm d, UInt16.xor_assoc]
    _ = c ^^^ a.toUInt16 ^^^ (d ^^^ b.toUInt16) := (UInt16.xor_assoc _ _ _).symm

/-- The checksum of damaged bytes is off by the checksum of the damage. -/
theorem foldl_corrupt {bytes errors : List UInt8} (h : bytes.length = errors.length)
    (c d : UInt16) :
    (corrupt bytes errors).foldl edgeCrc16Update (c ^^^ d)
      = bytes.foldl edgeCrc16Update c ^^^ errors.foldl edgeCrc16Update d := by
  induction bytes generalizing errors c d with
  | nil =>
      rw [List.eq_nil_of_length_eq_zero h.symm]
      rfl
  | cons a bytes ih =>
      obtain ⟨b, errors, rfl⟩ := List.exists_cons_of_length_eq_add_one h.symm
      rw [corrupt, List.zipWith_cons_cons, List.foldl_cons, update_xor]
      exact ih (by simpa using h) _ _

/-- The two bytes of a checksum do not overlap. -/
theorem join_eq_xor (lo hi : UInt8) :
    (hi.toUInt16 <<< 8) ||| lo.toUInt16 = (hi.toUInt16 <<< 8) ^^^ lo.toUInt16 := by
  apply UInt16.toBitVec_inj.mp
  apply BitVec.eq_of_getLsbD_eq
  intro i hi'
  rw [UInt16.toBitVec_or, UInt16.toBitVec_xor, BitVec.getLsbD_or, BitVec.getLsbD_xor]
  by_cases h8 : i < 8
  · have hz : (hi.toUInt16 <<< 8).toBitVec.getLsbD i = false := by
      rw [UInt16.toBitVec_shiftLeft]
      show (hi.toUInt16.toBitVec <<< 8).getLsbD i = false
      simp [h8]
    rw [hz, Bool.false_or, Bool.false_xor]
  · rw [byte_bit lo (by omega), Bool.or_false, Bool.xor_false]

theorem crcShift_hi (hi : UInt8) : crcShift^[8] (hi.toUInt16 <<< 8) = hi.toUInt16 := by
  have hclear : ∀ i, i < 8 → (hi.toUInt16 <<< 8).toBitVec.getLsbD i = false := by
    intro i h8
    rw [UInt16.toBitVec_shiftLeft]
    show (hi.toUInt16.toBitVec <<< 8).getLsbD i = false
    simp [h8]
  apply UInt16.toBitVec_inj.mp
  rw [crcShift_high _ hclear 8 (Nat.le_refl _), UInt16.toBitVec_shiftLeft]
  apply BitVec.eq_of_getLsbD_eq
  intro i hlt
  show ((hi.toUInt16.toBitVec <<< 8) >>> 8).getLsbD i = hi.toUInt16.toBitVec.getLsbD i
  rw [BitVec.getLsbD_ushiftRight, BitVec.getLsbD_shiftLeft]
  by_cases h8 : 8 + i < 16
  · simp [h8]
  · rw [decide_eq_false h8, Bool.false_and, Bool.false_and]
    exact (byte_bit hi (by omega)).symm

theorem crcShift_iterate_eq_zero {n : Nat} {x : UInt16} : crcShift^[n] x = 0 ↔ x = 0 := by
  constructor
  · intro h
    have hcells := congrArg crcCells h
    rw [crcCells_iterate, crcCells_zero] at hcells
    exact crcCells_eq_zero.mp (crcRegister.iterate_eq_zero hcells)
  · intro h
    rw [h]
    apply crcCells_inj.mp
    rw [crcCells_iterate, crcCells_zero, ShiftRegister.iterate_zero]

/-- Two checksum bytes empty the register exactly when they are its checksum. -/
theorem foldl_crc_eq_zero (crc : UInt16) (lo hi : UInt8) :
    [lo, hi].foldl edgeCrc16Update crc = 0 ↔ (hi.toUInt16 <<< 8) ||| lo.toUInt16 = crc := by
  have hfold : [lo, hi].foldl edgeCrc16Update crc
      = crcShift^[8] (crcShift^[8] (crc ^^^ lo.toUInt16 ^^^ (hi.toUInt16 <<< 8))) := by
    rw [crcShift_iterate_xor 8 (crc ^^^ lo.toUInt16), crcShift_hi]
    simp only [List.foldl_cons, List.foldl_nil, edgeCrc16Update_eq]
  rw [hfold, crcShift_iterate_eq_zero, crcShift_iterate_eq_zero, join_eq_xor,
    UInt16.xor_assoc crc, UInt16.xor_eq_zero_iff, UInt16.xor_comm lo.toUInt16]
  exact eq_comm

/-- **What the checksum lets through**: damaged bytes with their two checksum bytes are taken for
intact exactly when the damage itself leaves the register empty. -/
theorem corrupt_accepted_iff {crc : UInt16} {message errors body : List UInt8} {lo hi : UInt8}
    (hlen : errors.length = message.length + 2)
    (hbody : corrupt (message ++ crcBytes (message.foldl edgeCrc16Update crc)) errors
      = body ++ [lo, hi]) :
    (hi.toUInt16 <<< 8) ||| lo.toUInt16 = body.foldl edgeCrc16Update crc ↔
      errors.foldl edgeCrc16Update 0 = 0 := by
  have hintact : (message ++ crcBytes (message.foldl edgeCrc16Update crc)).foldl
      edgeCrc16Update crc = 0 := by
    rw [List.foldl_append]
    exact (foldl_crc_eq_zero _ _ _).mpr (crc_bytes_join _)
  have hsame : (message ++ crcBytes (message.foldl edgeCrc16Update crc)).length = errors.length := by
    simp [crcBytes, hlen]
  have hfold := foldl_corrupt hsame crc 0
  rw [hintact, UInt16.xor_zero, UInt16.zero_xor, hbody, List.foldl_append] at hfold
  rw [← hfold, foldl_crc_eq_zero]

theorem getD_bits {bits : List Bool} {i : Nat} :
    (bits.map bitSymbol).getD i 0 ≠ 0 ↔ bits[i]? = some true := by
  rw [List.getD_eq_getElem?_getD, List.getElem?_map]
  cases bits[i]? with
  | none => simp
  | some b => cases b <;> simp [bitSymbol]

/-- **Sixteen consecutive bits** of damage are always seen. -/
theorem burst_detected {errors : List UInt8} {a : Nat} (hne : true ∈ wireBits errors)
    (h : ∀ i, (wireBits errors)[i]? = some true → a ≤ i ∧ i < a + 16) :
    errors.foldl edgeCrc16Update 0 ≠ 0 := by
  have hrun : crcRegister.run 0 ((wireBits errors).map bitSymbol) ≠ 0 :=
    crcRegister.run_ne_zero_of_window (fun i hi => h i (getD_bits.mp hi))
      ⟨1, List.mem_map.mpr ⟨true, hne, rfl⟩, one_ne_zero⟩
  rw [← crcCells_zero, ← crcCells_foldl] at hrun
  exact fun hz => hrun (by rw [hz, crcCells_zero])

theorem sum_bits (bits : List Bool) : (bits.map bitSymbol).sum = (bits.count true : ZMod 2) := by
  induction bits with
  | nil => rfl
  | cons b bits ih => cases b <;> simp [bitSymbol, ih, add_comm]

/-- **An odd number of flipped bits** is always seen: the taps add up to one. -/
theorem odd_detected {errors : List UInt8} (h : (wireBits errors).count true % 2 = 1) :
    errors.foldl edgeCrc16Update 0 ≠ 0 := by
  have hsum := crcRegister.sum_run (by decide) 0 ((wireBits errors).map bitSymbol)
  rw [← crcCells_zero, ← crcCells_foldl, sum_bits] at hsum
  intro hz
  rw [hz, crcCells_zero] at hsum
  have hone : (((wireBits errors).count true : Nat) : ZMod 2) = 1 := by
    rw [← ZMod.natCast_mod, h]
    rfl
  rw [hone] at hsum
  simp at hsum

end EdgeGateway
