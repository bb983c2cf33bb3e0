import EdgeGateway.Basic.KeyMap
import Mathlib.Data.List.GetD
import Mathlib.Data.List.Nodup
import Mathlib.Tactic

set_option autoImplicit false

/-! # The wire protocol shared by gateway and node

Constants of `edge_proto.h`, its message types and result codes, and the big-endian codec of
the 64-bit session numbers. Bytes are `UInt8`; a buffer with its length is a list of bytes.
-/

namespace EdgeGateway

/-! ## Constants -/

def EDGE_HDR0 : UInt8 := 0xAA
def EDGE_HDR1 : UInt8 := 0x55
def EDGE_LEN_MIN : UInt8 := 1
def EDGE_LEN_MAX : UInt8 := 64
/-- `EDGE_LEN_MAX - 1`. -/
def EDGE_PAYLOAD_MAX : Nat := 63

def EDGE_TYPE_SR_RECEIVED : UInt8 := 0x07
def EDGE_TYPE_SR_RESULT : UInt8 := 0x08
def EDGE_TYPE_SR_OPEN_ACK : UInt8 := 0x09
def EDGE_TYPE_QUERY_LIGHT : UInt8 := 0x20
def EDGE_TYPE_QUERY_TH : UInt8 := 0x21
def EDGE_TYPE_SET_PERIOD : UInt8 := 0x22
def EDGE_TYPE_SR_OPEN : UInt8 := 0x23
def EDGE_TYPE_SR_COMMAND : UInt8 := 0x24
def EDGE_TYPE_SR_RESULT_ACK : UInt8 := 0x25

def EDGE_RC_OK : UInt8 := 0
def EDGE_RC_BAD_PARAM : UInt8 := 1
def EDGE_RC_UNSUPPORTED : UInt8 := 2
def EDGE_RC_BUSY : UInt8 := 3

def EDGE_ACK_TIMEOUT_MS : Nat := 500
def EDGE_MAX_RETRY : Nat := 3
def EDGE_SR_WINDOW_SIZE : Nat := 8
def EDGE_SR_RESULT_CAPACITY : Nat := 16
def EDGE_SR_RESULT_TTL_MS : Nat := 5000
def EDGE_COMMAND_LIFETIME_MS : Nat := 4000
def EDGE_SR_RESULT_TIMEOUT_MS : Nat := 10000
/-- `EDGE_PAYLOAD_MAX - EDGE_SR_BODY_OFFSET`. -/
def EDGE_SR_ARGS_MAX : Nat := 53
def EDGE_SR_RESULT_MAX : Nat := 53

/-! ## Sequence numbers as map keys -/

instance : Keys UInt8 where
  keys := (List.range 256).map UInt8.ofNat
  nodup_keys := by
    refine List.Nodup.map_on (fun a ha b hb hab => ?_) List.nodup_range
    rw [List.mem_range] at ha hb
    have := congrArg UInt8.toNat hab
    rwa [UInt8.toNat_ofNat_of_lt' ha, UInt8.toNat_ofNat_of_lt' hb] at this
  mem_keys k := List.mem_map.mpr ⟨k.toNat, List.mem_range.mpr k.toNat_lt, UInt8.ofNat_toNat⟩

/-! ## Big-endian session numbers -/

/-- One round of the read loop: `v = (v << 8) | p[i]`. -/
def edgeU64BeShiftIn (v : UInt64) (b : UInt8) : UInt64 := (v <<< 8) ||| b.toUInt64

def edgeU64BeRead (p : List UInt8) : UInt64 := (p.take 8).foldl edgeU64BeShiftIn 0

/-- The loop of `edge_u64_be_write`: the last byte is the low one, the rest comes from the
shifted value. -/
def edgeU64BeWriteLoop : Nat → UInt64 → List UInt8
  | 0, _ => []
  | n + 1, v => edgeU64BeWriteLoop n (v >>> 8) ++ [v.toUInt8]

def edgeU64BeWrite (v : UInt64) : List UInt8 := edgeU64BeWriteLoop 8 v

theorem edgeU64BeWriteLoop_length (n : Nat) (v : UInt64) :
    (edgeU64BeWriteLoop n v).length = n := by
  induction n generalizing v with
  | zero => rfl
  | succ n ih => simp [edgeU64BeWriteLoop, ih]

@[simp] theorem edgeU64BeWrite_length (v : UInt64) : (edgeU64BeWrite v).length = 8 :=
  edgeU64BeWriteLoop_length 8 v

/-- Shifting a byte in is multiplying by 256 and adding, modulo `2 ^ 64`. -/
theorem toNat_edgeU64BeShiftIn (v : UInt64) (b : UInt8) :
    (edgeU64BeShiftIn v b).toNat = (v.toNat * 256 + b.toNat) % 2 ^ 64 := by
  have hb : b.toNat < 2 ^ 8 := b.toNat_lt
  have hshift : (v <<< 8).toNat = 2 ^ 8 * (v.toNat % 2 ^ 56) := by
    simp only [UInt64.toNat_shiftLeft, Nat.shiftLeft_eq]
    simp only [UInt64.reduceToNat, Nat.reduceMod]
    omega
  rw [edgeU64BeShiftIn, UInt64.toNat_or, hshift, UInt8.toNat_toUInt64,
    ← Nat.two_pow_add_eq_or_of_lt hb]
  omega

/-- Reading what the write loop wrote, from any accumulator. -/
theorem foldl_edgeU64BeWriteLoop (n : Nat) (v acc : UInt64) :
    ((edgeU64BeWriteLoop n v).foldl edgeU64BeShiftIn acc).toNat
      = (acc.toNat * 256 ^ n + v.toNat % 256 ^ n) % 2 ^ 64 := by
  induction n generalizing v with
  | zero =>
      have := acc.toNat_lt
      simp only [edgeU64BeWriteLoop, List.foldl_nil, pow_zero, Nat.mod_one]
      omega
  | succ n ih =>
      have hshift : (v >>> 8).toNat = v.toNat / 256 := by
        simp [UInt64.toNat_shiftRight, Nat.shiftRight_eq_div_pow]
      have hbyte : v.toUInt8.toNat = v.toNat % 256 := by simp
      have hpow : 256 ^ (n + 1) = 256 ^ n * 256 := pow_succ _ _
      have hsplit : v.toNat % 256 ^ (n + 1) = (v.toNat / 256 % 256 ^ n) * 256 + v.toNat % 256 := by
        rw [hpow, Nat.mul_comm, Nat.mod_mul]
        ring
      rw [edgeU64BeWriteLoop, List.foldl_append, List.foldl_cons, List.foldl_nil,
        toNat_edgeU64BeShiftIn, ih, hshift, hbyte, hsplit, hpow]
      set x := v.toNat / 256 % 256 ^ n
      have hring : acc.toNat * (256 ^ n * 256) + (x * 256 + v.toNat % 256)
          = (acc.toNat * 256 ^ n + x) * 256 + v.toNat % 256 := by ring
      rw [hring]
      omega

/-- **A written session number reads back.** -/
@[simp] theorem edgeU64BeRead_write (v : UInt64) (rest : List UInt8) :
    edgeU64BeRead (edgeU64BeWrite v ++ rest) = v := by
  have htake : (edgeU64BeWrite v ++ rest).take 8 = edgeU64BeWrite v :=
    List.take_left' (edgeU64BeWrite_length v)
  apply UInt64.toNat_inj.mp
  have hlt := v.toNat_lt
  rw [edgeU64BeRead, htake, edgeU64BeWrite, foldl_edgeU64BeWriteLoop]
  simp only [UInt64.toNat_zero]
  omega

/-- The bytes behind a written session number. -/
theorem getD_edgeU64BeWrite_append (v : UInt64) (rest : List UInt8) (i : Nat) (d : UInt8) :
    (edgeU64BeWrite v ++ rest).getD (8 + i) d = rest.getD i d := by
  rw [List.getD_append_right _ _ _ _ (by simp)]
  simp

theorem drop_edgeU64BeWrite_append (v : UInt64) (rest : List UInt8) (i : Nat) :
    (edgeU64BeWrite v ++ rest).drop (8 + i) = rest.drop i := by
  rw [List.drop_append, List.drop_of_length_le (by simp)]
  simp

end EdgeGateway
