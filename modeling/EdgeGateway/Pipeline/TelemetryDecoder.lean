import EdgeGateway.Basic.Bytes
import EdgeGateway.Pipeline.TelemetryPipeline
import EdgeGateway.Protocol.FrameCodec
import EdgeGateway.System.CommandPath

set_option autoImplicit false

/-! # From frames to readings

`decodeTelemetry` and the length table of `edge_proto.h`. All values that the node sends are numbers
of tenths, and so is the value of a reading here: a quotient `raw / scale` of the source is the
number `tenths raw scale`. Warnings are left out.
-/

namespace EdgeGateway

/-! ## The protocol's tables -/

def EDGE_TYPE_DHT11 : UInt8 := 0x01
def EDGE_TYPE_BH1750 : UInt8 := 0x02
def EDGE_TYPE_HEARTBEAT : UInt8 := 0x03
def EDGE_TYPE_STATUS : UInt8 := 0x04
def EDGE_TYPE_QUERY_RESP : UInt8 := 0x05
def EDGE_TYPE_ACK : UInt8 := 0x06

def EDGE_STATUS_BIT_DHT11 : UInt8 := 0x01
def EDGE_STATUS_BIT_BH1750 : UInt8 := 0x02

/-- Negative for a type that is not known. -/
def edgeMinPayloadLen (type : UInt8) : Int :=
  if type = EDGE_TYPE_DHT11 then 4
  else if type = EDGE_TYPE_BH1750 then 2
  else if type = EDGE_TYPE_HEARTBEAT then 0
  else if type = EDGE_TYPE_STATUS then 1
  else if type = EDGE_TYPE_QUERY_RESP then 2
  else if type = EDGE_TYPE_ACK then 2
  else if type = EDGE_TYPE_SR_RECEIVED ∨ type = EDGE_TYPE_SR_RESULT_ACK then 9
  else if type = EDGE_TYPE_SR_RESULT then 11
  else if type = EDGE_TYPE_SR_OPEN_ACK then 17
  else if type = EDGE_TYPE_SR_OPEN then 8
  else if type = EDGE_TYPE_SR_COMMAND then 10
  else if type = EDGE_TYPE_QUERY_LIGHT then 1
  else if type = EDGE_TYPE_QUERY_TH then 1
  else if type = EDGE_TYPE_SET_PERIOD then 3
  else -1

def edgePayloadLenOk (type payloadLen : UInt8) : Bool :=
  let need := edgeMinPayloadLen type
  need ≥ 0 ∧ (payloadLen.toNat : Int) ≥ need

/-! ## The decoder -/

/-- The value `raw / double(scale)`, for a scale that divides ten. -/
def tenths (raw scale : Nat) : Nat := raw * 10 / scale

/-- The reading of one status bit. -/
def statusReading (device : String) (st bit : UInt8) : TelemetryPipeline.Reading Nat :=
  ⟨bytes device, if st &&& bit ≠ 0 then tenths 1 1 else tenths 0 1⟩

def decodeTelemetry (f : Frame) : List (TelemetryPipeline.Reading Nat) :=
  let p := f.payload
  -- the length is narrowed as in the source; frames of the parser are shorter than 64 bytes
  if edgePayloadLenOk f.type p.length.toUInt8 = false then []
  else if f.type = EDGE_TYPE_DHT11 then
    [⟨bytes "temperature", tenths (edgeU16BeRead p) EDGE_TEMP_SCALE⟩,
      ⟨bytes "humidity", tenths (edgeU16BeRead (p.drop 2)) EDGE_HUMI_SCALE⟩]
  else if f.type = EDGE_TYPE_BH1750 then
    [⟨bytes "illuminance", tenths (edgeU16BeRead p) 1⟩]
  else if f.type = EDGE_TYPE_STATUS then
    let st := p.getD 0 0
    [statusReading "status_dht11" st EDGE_STATUS_BIT_DHT11,
      statusReading "status_bh1750" st EDGE_STATUS_BIT_BH1750]
  -- heartbeats, and what is not telemetry
  else []

/-! ## What is decoded -/

theorem edgePayloadLenOk_iff {type : UInt8} {p : List UInt8} {need : Nat}
    (hneed : edgeMinPayloadLen type = need) (hlen : p.length < 256) :
    edgePayloadLenOk type p.length.toUInt8 = true ↔ need ≤ p.length := by
  have hnat : p.length.toUInt8.toNat = p.length := by
    show p.length % 256 = p.length
    omega
  unfold edgePayloadLenOk
  rw [hneed, hnat, decide_eq_true_iff]
  omega

/-- The length check looks at the narrowed length, but it never lets a read pass the end. -/
theorem length_of_payloadLenOk {type : UInt8} {p : List UInt8} {need : Nat}
    (hneed : edgeMinPayloadLen type = need)
    (hok : edgePayloadLenOk type p.length.toUInt8 = true) : need ≤ p.length := by
  have hnat : p.length.toUInt8.toNat = p.length % 256 := rfl
  unfold edgePayloadLenOk at hok
  rw [hneed, hnat, decide_eq_true_iff] at hok
  have := Nat.mod_le p.length 256
  omega

theorem edgeU16BeRead_lt (p : List UInt8) : edgeU16BeRead p < 65536 := by
  have hhi := (p.getD 0 0).toNat_lt
  have hlo := (p.getD 1 0).toNat_lt
  unfold edgeU16BeRead
  omega

end EdgeGateway
