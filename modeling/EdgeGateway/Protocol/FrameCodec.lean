import EdgeGateway.Protocol.FrameSound

set_option autoImplicit false

/-! # The gateway's frame builder, and encode-then-parse

`buildFrame` checks the payload size before narrowing it to a byte. A frame it builds passes
through a parser that is searching for a header and comes out as it went in: header, payload and
checksum are followed phase by phase (`feed_head`, `feed_payload`, `feed_crc`).
-/

namespace EdgeGateway

/-- The bytes of a complete frame, empty when the payload is too long. -/
def buildFrame (type : UInt8) (payload : List UInt8) : List UInt8 :=
  if payload.length > EDGE_PAYLOAD_MAX then []
  else
    edgeFrameEncode type (if payload.isEmpty then none else some payload) payload.length.toUInt8

theorem buildFrame_eq_nil {type : UInt8} {payload : List UInt8}
    (h : EDGE_PAYLOAD_MAX < payload.length) : buildFrame type payload = [] :=
  if_pos h

/-- A NULL payload pointer of length 0 encodes like an empty payload. -/
theorem buildFrame_eq_bytes (f : Frame) (h : f.payload.length ≤ EDGE_PAYLOAD_MAX) :
    buildFrame f.type f.payload = f.bytes := by
  rw [buildFrame, if_neg (by omega), Frame.bytes]
  cases hp : f.payload with
  | nil => rfl
  | cons b rest => rfl

theorem Frame.bytes_ne_nil {f : Frame} (h : f.payload.length ≤ EDGE_PAYLOAD_MAX) :
    f.bytes ≠ [] := by
  rw [Frame.bytes_eq h]
  simp [frameHead]

/-! ## Feeding one encoded frame -/

/-- `q` differs from `p` in the progress of the current frame only. -/
structure SameFrame (p q : EdgeParser) : Prop where
  onFrame : q.onFrame = p.onFrame
  stats : q.stats = p.stats
  len : q.len = p.len
  type : q.type = p.type

/-- Header, LEN and TYPE, from either of the two header-searching states. -/
theorem feed_head {p : EdgeParser} (h : p.state = .waitHdr0 ∨ p.state = .waitHdr1)
    {len : UInt8} (hlen : LenOk len) (type : UInt8) :
    ∃ q, edgeParserFeedBytes p (frameHead len type) = (q, []) ∧ q.onFrame = p.onFrame ∧
      q.stats = p.stats ∧ q.len = len ∧ q.type = type ∧ Received q [] ∧
      q.state = if len = EDGE_LEN_MIN then .waitCrcLo else .readPayload := by
  have hrange : ¬ (len < EDGE_LEN_MIN ∨ EDGE_LEN_MAX < len) := by
    simp only [UInt8.lt_iff_toNat_lt, not_or, Nat.not_lt]
    exact hlen
  refine ⟨{ p with crc := edgeCrc16 [len, type], len := len, type := type, received := 0,
                   state := if len = EDGE_LEN_MIN then .waitCrcLo else .readPayload },
    ?_, rfl, rfl, rfl, rfl, ⟨hlen, rfl, Nat.zero_le _, rfl, rfl⟩, rfl⟩
  have hne : ¬ EDGE_HDR0 = EDGE_HDR1 := by decide
  rcases h with h | h <;>
    simp [edgeParserFeedBytes, frameHead, edgeParserFeed, h, hrange, hne, edgeCrc16]

/-- The payload bytes, the last of which completes it. -/
theorem feed_payload (rest : List UInt8) :
    ∀ {p : EdgeParser} {body : List UInt8}, p.state = .readPayload → Received p body →
      rest ≠ [] → body.length + rest.length = p.len.toNat - 1 →
      ∃ q, edgeParserFeedBytes p rest = (q, []) ∧ SameFrame p q ∧ Received q (body ++ rest) ∧
        q.state = .waitCrcLo := by
  induction rest with
  | nil => intro p body _ _ hne; exact absurd rfl hne
  | cons b rest ih =>
      intro p body hst hrec _ hlen
      rw [List.length_cons] at hlen
      have hlt : body.length < p.len.toNat - 1 := by omega
      have hfeed := feed_readPayload hst b
      by_cases hlast : rest = []
      · subst hlast
        rw [if_pos ((hrec.last_iff hlt).mpr hlen)] at hfeed
        refine ⟨p.push b .waitCrcLo, ?_, ⟨rfl, rfl, rfl, rfl⟩, hrec.push hlt b _, rfl⟩
        simp [edgeParserFeedBytes, hfeed]
      · have hpos := List.length_pos_iff.mpr hlast
        rw [if_neg (fun h => by have := (hrec.last_iff hlt).mp h; omega)] at hfeed
        obtain ⟨q, hq, hsame, hrecq, hstq⟩ := ih (p := p.push b .readPayload) rfl
          (hrec.push hlt b _) hlast (by
            show (body ++ [b]).length + rest.length = p.len.toNat - 1
            simp only [List.length_append, List.length_singleton]
            omega)
        refine ⟨q, ?_, ⟨hsame.onFrame, hsame.stats, hsame.len, hsame.type⟩, ?_, hstq⟩
        · simp [edgeParserFeedBytes, hfeed, hq]
        · simpa [List.append_assoc] using hrecq

/-- Everything in front of the checksum bytes of a span. -/
theorem feed_span {p : EdgeParser} (h : p.state = .waitHdr0 ∨ p.state = .waitHdr1)
    {len : UInt8} (hlen : LenOk len) (type : UInt8) {body : List UInt8}
    (hfull : body.length = len.toNat - 1) :
    ∃ q, edgeParserFeedBytes p (frameHead len type ++ body) = (q, []) ∧ q.onFrame = p.onFrame ∧
      q.stats = p.stats ∧ q.len = len ∧ q.type = type ∧ Received q body ∧ q.state = .waitCrcLo := by
  obtain ⟨q1, h1, hon1, hst1, hlen1, htype1, hrec1, hs1⟩ := feed_head h hlen type
  have hcat : edgeParserFeedBytes p (frameHead len type ++ body) = edgeParserFeedBytes q1 body := by
    rw [edgeParserFeedBytes_append, h1]
    rfl
  rw [hcat]
  -- an empty payload goes straight to the checksum
  by_cases hnil : body = []
  · have hone : len = EDGE_LEN_MIN := by
      apply UInt8.toNat_inj.mp
      rw [hnil, List.length_nil] at hfull
      have hpos := hlen.1
      show len.toNat = 1
      omega
    rw [if_pos hone] at hs1
    rw [hnil]
    exact ⟨q1, rfl, hon1, hst1, hlen1, htype1, hrec1, hs1⟩
  · have hpos := List.length_pos_iff.mpr hnil
    have hne : ¬ len = EDGE_LEN_MIN := by
      intro hc
      rw [hc] at hfull
      have hmin : EDGE_LEN_MIN.toNat = 1 := rfl
      omega
    rw [if_neg hne] at hs1
    obtain ⟨q2, h2, hsame, hrec2, hs2⟩ := feed_payload body hs1 hrec1 hnil (by
      rw [List.length_nil, Nat.zero_add, hlen1]
      exact hfull)
    exact ⟨q2, h2, hsame.onFrame.trans hon1, hsame.stats.trans hst1, hsame.len.trans hlen1,
      hsame.type.trans htype1, hrec2, hs2⟩

/-- The two checksum bytes of a complete payload deliver the frame. -/
theorem feed_crc {p : EdgeParser} {body : List UInt8} (hst : p.state = .waitCrcLo)
    (hon : p.onFrame = true) (hrec : Received p body) (hfull : body.length = p.len.toNat - 1) :
    ∃ q, edgeParserFeedBytes p (crcBytes p.crc) = (q, [⟨p.type, body⟩]) ∧ q.state = .waitHdr0 ∧
      q.onFrame = true ∧ q.stats = { p.stats with framesOk := p.stats.framesOk + 1 } := by
  have hframe : (⟨p.type, p.payload.toList.take (p.len - 1).toNat⟩ : Frame) = ⟨p.type, body⟩ := by
    rw [← hrec.frame_payload hfull]
    rfl
  refine ⟨{ p with crcLo := p.crc.toUInt8, crcHi := (p.crc >>> 8).toUInt8, state := .waitHdr0,
                   stats := { p.stats with framesOk := p.stats.framesOk + 1 } }, ?_, rfl, hon, rfl⟩
  simp only [crcBytes, edgeParserFeedBytes, edgeParserFeed, hst, edgeParserDeliver, crc_bytes_join,
    EdgeParser.frame, hon, hframe, if_true, List.nil_append, List.append_nil]

/-- The parser searches for a header, and a frame that ends now is reported. -/
def Searching (p : EdgeParser) : Prop :=
  p.onFrame = true ∧ (p.state = .waitHdr0 ∨ p.state = .waitHdr1)

/-- `q` has counted `n` more frames than `p` and no error. -/
def CountedFrames (p q : EdgeParser) (n : Nat) : Prop :=
  q.stats = { p.stats with framesOk := p.stats.framesOk + n.toUInt32 }

/-- **One frame, whatever its bytes**: it is delivered and nothing else happens. -/
theorem feed_frame {p : EdgeParser} (h : Searching p) (f : Frame)
    (hf : f.payload.length ≤ EDGE_PAYLOAD_MAX) :
    ∃ q, edgeParserFeedBytes p f.bytes = (q, [f]) ∧ q.state = .waitHdr0 ∧ q.onFrame = true ∧
      CountedFrames p q 1 := by
  have hadd := toNat_one_add hf
  have hlenok : LenOk (1 + f.payload.length.toUInt8) := by
    unfold LenOk EDGE_PAYLOAD_MAX at *
    omega
  have hfull : f.payload.length = (1 + f.payload.length.toUInt8).toNat - 1 := by omega
  obtain ⟨q1, h1, hon1, hst1, hlen1, htype1, hrec1, hs1⟩ := feed_span h.2 hlenok f.type hfull
  have hcrc : q1.crc = edgeCrc16 ((1 + f.payload.length.toUInt8) :: f.type :: f.payload) := by
    rw [hrec1.crc, hlen1, htype1]
  obtain ⟨q2, h2, hs2, hon2, hst2⟩ := feed_crc hs1 (hon1.trans h.1) hrec1
    (by rw [hlen1, hadd]; omega)
  refine ⟨q2, ?_, hs2, hon2, ?_⟩
  · rw [Frame.bytes_eq hf, edgeParserFeedBytes_append]
    simp only [h1, ← hcrc, h2, htype1, List.nil_append]
  · rw [CountedFrames, hst2, hst1]
    rfl

/-! ## Feeding a sequence of built frames -/

theorem onFrame_feedBytes (p : EdgeParser) (bytes : List UInt8) :
    (edgeParserFeedBytes p bytes).1.onFrame = p.onFrame := by
  induction bytes generalizing p with
  | nil => rfl
  | cons b rest ih => simp [edgeParserFeedBytes, ih, onFrame_feed]

/-- The frames `buildFrame` does not reject. -/
def fitting (pairs : List Frame) : List Frame :=
  pairs.filter fun f => f.payload.length ≤ EDGE_PAYLOAD_MAX

/-- The concatenation of the built frames. -/
def buildAll (pairs : List Frame) : List UInt8 :=
  pairs.flatMap fun f => buildFrame f.type f.payload

theorem feed_buildAll (pairs : List Frame) :
    ∀ {p : EdgeParser}, Searching p →
      ∃ q, edgeParserFeedBytes p (buildAll pairs) = (q, fitting pairs) ∧
        CountedFrames p q (fitting pairs).length ∧
        (fitting pairs = [] → q = p) ∧ (fitting pairs ≠ [] → q.state = .waitHdr0) := by
  induction pairs with
  | nil =>
      intro p _
      exact ⟨p, rfl, by simp [CountedFrames, fitting], fun _ => rfl, fun h => absurd rfl h⟩
  | cons f pairs ih =>
      intro p hp
      by_cases hf : f.payload.length ≤ EDGE_PAYLOAD_MAX
      · obtain ⟨q, hq, hst, hon, hcount⟩ := feed_frame hp f hf
        obtain ⟨r, hr, hcount', hsame, hend⟩ := ih (p := q) ⟨hon, Or.inl hst⟩
        have hfit : fitting (f :: pairs) = f :: fitting pairs := by simp [fitting, hf]
        refine ⟨r, ?_, ?_, fun h => absurd (hfit.symm.trans h) (by simp), fun _ => ?_⟩
        · have hsplit : buildAll (f :: pairs) = f.bytes ++ buildAll pairs := by
            rw [buildAll, List.flatMap_cons, buildFrame_eq_bytes f hf]
            rfl
          rw [hsplit, edgeParserFeedBytes_append, hfit]
          simp only [hq, hr, List.singleton_append]
        · rw [CountedFrames, hcount', hcount, hfit, List.length_cons]
          simp [Nat.toUInt32_eq, UInt32.add_assoc, UInt32.add_comm]
        · by_cases hnil : fitting pairs = []
          · rw [hsame hnil, hst]
          · exact hend hnil
      · have hfit : fitting (f :: pairs) = fitting pairs := by simp [fitting, hf]
        have hskip : buildAll (f :: pairs) = buildAll pairs := by
          rw [buildAll, List.flatMap_cons, buildFrame_eq_nil (by omega)]
          rfl
        rw [hfit, hskip]
        exact ih hp

/-- **Encode, then parse.** A built frame is empty exactly when its payload is too long, and is
otherwise the encoding of the whole payload. Behind any bytes that leave the parser searching for
a header, and in any chunks, the built frames come out once each and in order, with no error
counted. The last one leaves the parser in its initial state; when there is none, the parser
stays where the bytes before left it. -/
theorem build_then_parse (p : EdgeParser) (pre : List UInt8) (pairs : List Frame)
    (calls : List FeedCall) (hon : p.onFrame = true)
    (hstream : calls.flatMap FeedCall.bytes = pre ++ buildAll pairs)
    (hpre : (edgeParserFeedBytes p pre).1.state = .waitHdr0 ∨
      (edgeParserFeedBytes p pre).1.state = .waitHdr1) :
    (∀ f : Frame, (buildFrame f.type f.payload = [] ↔ EDGE_PAYLOAD_MAX < f.payload.length) ∧
      (f.payload.length ≤ EDGE_PAYLOAD_MAX → buildFrame f.type f.payload
        = edgeFrameEncode f.type (some f.payload) f.payload.length.toUInt8)) ∧
    (let q := (edgeParserFeedBytes p pre).1
     let r := runFeedCalls p calls
     r.2 = (edgeParserFeedBytes p pre).2 ++
        pairs.filter (fun f => f.payload.length ≤ EDGE_PAYLOAD_MAX) ∧
      r.1.stats.lenErr = q.stats.lenErr ∧ r.1.stats.crcErr = q.stats.crcErr ∧
      r.1.stats.resync = q.stats.resync ∧
      ((∃ f ∈ pairs, f.payload.length ≤ EDGE_PAYLOAD_MAX) → r.1.state = .waitHdr0) ∧
      ((∀ f ∈ pairs, EDGE_PAYLOAD_MAX < f.payload.length) → r.1 = q)) := by
  refine ⟨fun f => ⟨⟨fun h => ?_, buildFrame_eq_nil⟩, buildFrame_eq_bytes f⟩, ?_⟩
  · by_contra hle
    have hle : f.payload.length ≤ EDGE_PAYLOAD_MAX := by omega
    exact Frame.bytes_ne_nil hle ((buildFrame_eq_bytes f hle).symm.trans h)
  · intro q r
    have hsearch : Searching q := ⟨(onFrame_feedBytes p pre).trans hon, hpre⟩
    obtain ⟨s, hs, hcount, hsame, hend⟩ := feed_buildAll pairs hsearch
    have hr : r = (s, (edgeParserFeedBytes p pre).2 ++ fitting pairs) := by
      show runFeedCalls p calls = _
      rw [runFeedCalls_eq, hstream, edgeParserFeedBytes_append, hs]
    rw [hr]
    refine ⟨rfl, ?_, ?_, ?_, fun hex => hend ?_, fun hall => hsame ?_⟩
    · rw [hcount]
    · rw [hcount]
    · rw [hcount]
    · obtain ⟨f, hmem, hle⟩ := hex
      exact List.ne_nil_of_mem (List.mem_filter.mpr ⟨hmem, by simpa using hle⟩)
    · rw [fitting, List.filter_eq_nil_iff]
      intro f hmem
      have := hall f hmem
      simp only [decide_eq_true_eq]
      omega

/-- A parser object as the C runtime may hand it out, before `edge_parser_init`. -/
def blankParser : EdgeParser :=
  ⟨.waitHdr0, 0, 0, Vector.replicate _ 0, 0, 0, 0, 0, true, ⟨0, 0, 0, 0⟩⟩

/-- A noise byte, then a built frame, in two chunks: the frame is delivered. -/
theorem build_then_parse_noise :
    (runFeedCalls blankParser [.feed 0xAA, .feedBuf (some (buildAll [⟨1, [0xAA, 0x55]⟩]))]).2
      = [⟨1, [0xAA, 0x55]⟩] := by
  have h := (build_then_parse blankParser [0xAA] [⟨1, [0xAA, 0x55]⟩]
    [.feed 0xAA, .feedBuf (some (buildAll [⟨1, [0xAA, 0x55]⟩]))] rfl (by
      simp [FeedCall.bytes]) (Or.inr rfl)).2.1
  exact h

/-- Without any frame behind it, a lone `0xAA` keeps the parser waiting for the second header
byte: the final state is the initial one only when some frame follows. -/
theorem build_then_parse_no_frame :
    ¬ ∀ (p : EdgeParser) (pre : List UInt8) (pairs : List Frame) (calls : List FeedCall),
      p.onFrame = true → calls.flatMap FeedCall.bytes = pre ++ buildAll pairs →
      ((edgeParserFeedBytes p pre).1.state = .waitHdr0 ∨
        (edgeParserFeedBytes p pre).1.state = .waitHdr1) →
      (runFeedCalls p calls).1.state = .waitHdr0 := by
  intro h
  have := h blankParser [0xAA] [] [.feed 0xAA] rfl rfl (Or.inr rfl)
  exact absurd this (by decide)

end EdgeGateway
