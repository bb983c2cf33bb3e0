import EdgeGateway.Protocol.Proto
import EdgeGateway.Protocol.Crc16

set_option autoImplicit false

/-! # Frame encoder and incremental parser

`edge_frame_encode` writes header, LEN, TYPE, payload and CRC; the parser is the byte-driven
state machine of `edge_frame.c`. A call of `on_frame` is an element of the list of frames a
feeding function returns. Pointers to objects that the caller owns (`p`, `out`) are never NULL
here; the payload and buffer pointers that may be NULL are options.
-/

namespace EdgeGateway

/-- A frame as it is handed to `on_frame`: the raw TYPE and the payload. -/
structure Frame where
  type : UInt8
  payload : List UInt8
  deriving DecidableEq

/-! ## Encoder -/

/-- The bytes `edge_frame_encode` writes to `out`; none when it returns 0. -/
def edgeFrameEncode (type : UInt8) (payload : Option (List UInt8)) (payloadLen : UInt8) :
    List UInt8 :=
  if payloadLen.toNat > EDGE_PAYLOAD_MAX then []
  else if payload = none ∧ payloadLen ≠ 0 then []
  else
    let len := 1 + payloadLen
    let body := (payload.getD []).take payloadLen.toNat
    let crc := edgeCrc16Update (edgeCrc16Update EDGE_CRC16_INIT len) type
    let crc := body.foldl edgeCrc16Update crc
    [EDGE_HDR0, EDGE_HDR1, len, type] ++ body ++ [(crc &&& 0xFF).toUInt8, (crc >>> 8).toUInt8]

/-! ## Parser -/

inductive EdgeState
  | waitHdr0
  | waitHdr1
  | waitLen
  | waitType
  | readPayload
  | waitCrcLo
  | waitCrcHi
  | deliver
  deriving DecidableEq

/-- Counters since the last `edge_parser_init`; they wrap at `2 ^ 32`. -/
structure EdgeParserStats where
  framesOk : UInt32
  lenErr : UInt32
  crcErr : UInt32
  resync : UInt32
  deriving DecidableEq

/-- `edge_parser_t`. `onFrame` says whether a callback is installed. -/
structure EdgeParser where
  state : EdgeState
  len : UInt8
  type : UInt8
  payload : Vector UInt8 EDGE_PAYLOAD_MAX
  received : UInt8
  crc : UInt16
  crcLo : UInt8
  crcHi : UInt8
  onFrame : Bool
  stats : EdgeParserStats

def edgeParserReset (p : EdgeParser) : EdgeParser :=
  { p with state := .waitHdr0, len := 0, type := 0, received := 0, crc := EDGE_CRC16_INIT,
           crcLo := 0, crcHi := 0 }

def edgeParserResync (p : EdgeParser) : EdgeParser :=
  let p := edgeParserReset p
  { p with stats := { p.stats with resync := p.stats.resync + 1 } }

/-- The payload bytes `on_frame` is given: `payload[0 .. len - 1)`. -/
def EdgeParser.frame (p : EdgeParser) : Frame :=
  ⟨p.type, p.payload.toList.take (p.len - 1).toNat⟩

def edgeParserDeliver (p : EdgeParser) : EdgeParser × List Frame :=
  let received := (p.crcHi.toUInt16 <<< 8) ||| p.crcLo.toUInt16
  if received = p.crc then
    ({ p with state := .waitHdr0, stats := { p.stats with framesOk := p.stats.framesOk + 1 } },
      if p.onFrame then [p.frame] else [])
  else
    (edgeParserResync { p with stats := { p.stats with crcErr := p.stats.crcErr + 1 } }, [])

/-- `edge_parser_init` on an object whose payload bytes are whatever they were. -/
def edgeParserInit (p : EdgeParser) (onFrame : Bool) : EdgeParser :=
  { p with state := .waitHdr0, len := 0, type := 0, received := 0, crc := EDGE_CRC16_INIT,
           crcLo := 0, crcHi := 0, onFrame := onFrame, stats := ⟨0, 0, 0, 0⟩ }

def edgeParserFeed (p : EdgeParser) (byte : UInt8) : EdgeParser × List Frame :=
  match p.state with
  | .waitHdr0 =>
      if byte = EDGE_HDR0 then ({ p with state := .waitHdr1 }, []) else (p, [])
  | .waitHdr1 =>
      if byte = EDGE_HDR1 then ({ p with crc := EDGE_CRC16_INIT, state := .waitLen }, [])
      -- keep the last 0xAA, so that AA AA 55 matches from its second byte
      else if byte = EDGE_HDR0 then (p, [])
      else ({ p with state := .waitHdr0 }, [])
  | .waitLen =>
      if byte < EDGE_LEN_MIN ∨ EDGE_LEN_MAX < byte then
        (edgeParserResync { p with stats := { p.stats with lenErr := p.stats.lenErr + 1 } }, [])
      else
        ({ p with len := byte, crc := edgeCrc16Update p.crc byte, state := .waitType }, [])
  | .waitType =>
      ({ p with type := byte, crc := edgeCrc16Update p.crc byte, received := 0,
                state := if p.len = EDGE_LEN_MIN then .waitCrcLo else .readPayload }, [])
  | .readPayload =>
      let p := { p with payload := p.payload.setIfInBounds p.received.toNat byte,
                        received := p.received + 1, crc := edgeCrc16Update p.crc byte }
      if p.received ≥ p.len - 1 then ({ p with state := .waitCrcLo }, []) else (p, [])
  | .waitCrcLo => ({ p with crcLo := byte, state := .waitCrcHi }, [])
  | .waitCrcHi => edgeParserDeliver { p with crcHi := byte, state := .deliver }
  | .deliver => (edgeParserResync p, [])

/-- The loop of `edge_parser_feed_buf` over a buffer that is not NULL. -/
def edgeParserFeedBytes : EdgeParser → List UInt8 → EdgeParser × List Frame
  | p, [] => (p, [])
  | p, byte :: rest =>
      let (p, fs) := edgeParserFeed p byte
      let (p, gs) := edgeParserFeedBytes p rest
      (p, fs ++ gs)

def edgeParserFeedBuf (p : EdgeParser) : Option (List UInt8) → EdgeParser × List Frame
  | none => (p, [])
  | some buf => edgeParserFeedBytes p buf

/-! ## Calls on one parser

A stream reaches the parser through any mix of the two feeding functions. -/

inductive FeedCall
  | feed (byte : UInt8)
  | feedBuf (buf : Option (List UInt8))

/-- The stream bytes a call carries. -/
def FeedCall.bytes : FeedCall → List UInt8
  | .feed byte => [byte]
  | .feedBuf buf => buf.getD []

def FeedCall.run (p : EdgeParser) : FeedCall → EdgeParser × List Frame
  | .feed byte => edgeParserFeed p byte
  | .feedBuf buf => edgeParserFeedBuf p buf

def runFeedCalls : EdgeParser → List FeedCall → EdgeParser × List Frame
  | p, [] => (p, [])
  | p, call :: calls =>
      let (p, fs) := call.run p
      let (p, gs) := runFeedCalls p calls
      (p, fs ++ gs)

theorem edgeParserFeedBytes_append (p : EdgeParser) (a b : List UInt8) :
    edgeParserFeedBytes p (a ++ b)
      = ((edgeParserFeedBytes (edgeParserFeedBytes p a).1 b).1,
          (edgeParserFeedBytes p a).2 ++ (edgeParserFeedBytes (edgeParserFeedBytes p a).1 b).2) := by
  induction a generalizing p with
  | nil => simp [edgeParserFeedBytes]
  | cons byte rest ih => simp [edgeParserFeedBytes, ih, List.append_assoc]

theorem FeedCall.run_eq (p : EdgeParser) (call : FeedCall) :
    call.run p = edgeParserFeedBytes p call.bytes := by
  cases call with
  | feed byte => simp [FeedCall.run, FeedCall.bytes, edgeParserFeedBytes]
  | feedBuf buf => cases buf <;> simp [FeedCall.run, FeedCall.bytes, edgeParserFeedBuf,
      edgeParserFeedBytes]

/-- **Chunking is invisible**: a sequence of calls does what feeding the concatenated bytes
one by one does. -/
theorem runFeedCalls_eq (p : EdgeParser) (calls : List FeedCall) :
    runFeedCalls p calls = edgeParserFeedBytes p (calls.flatMap FeedCall.bytes) := by
  induction calls generalizing p with
  | nil => rfl
  | cons call calls ih =>
      rw [List.flatMap_cons, edgeParserFeedBytes_append]
      simp only [runFeedCalls, FeedCall.run_eq, ih]

end EdgeGateway
