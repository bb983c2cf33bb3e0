import EdgeGateway.Protocol.Frame

set_option autoImplicit false

/-! # What the parser delivers was on the wire

The parser's state is tied to the bytes it has read since the last candidate header: `Reading
p cur` says that the unfinished frame `cur` is what `p` remembers. One byte either extends,
shortens or completes `cur` (`feed_cases`); so the stream splits into the encodings of the
delivered frames, in order, with gaps between them (`ParserInv.feedBytes`).
-/

namespace EdgeGateway

/-! ## The encoding of a frame -/

/-- The bytes of a frame with an untruncated payload. -/
def Frame.bytes (f : Frame) : List UInt8 :=
  edgeFrameEncode f.type (some f.payload) f.payload.length.toUInt8

/-- The first four bytes of a frame. -/
def frameHead (len type : UInt8) : List UInt8 := [EDGE_HDR0, EDGE_HDR1, len, type]

/-- The two checksum bytes in wire order. -/
def crcBytes (crc : UInt16) : List UInt8 := [crc.toUInt8, (crc >>> 8).toUInt8]

theorem toUInt8_and_255 (crc : UInt16) : (crc &&& 0xFF).toUInt8 = crc.toUInt8 := by
  apply UInt8.toNat_inj.mp
  have h : crc.toNat &&& 255 = crc.toNat % 2 ^ 8 := Nat.and_two_pow_sub_one_eq_mod crc.toNat 8
  rw [UInt16.toNat_toUInt8, UInt16.toNat_and, UInt16.toNat_toUInt8]
  show (crc.toNat &&& 255) % 2 ^ 8 = _
  rw [h, Nat.mod_mod]

/-- Two received checksum bytes that join to `crc` are its bytes. -/
theorem crcBytes_of_join {crc : UInt16} {lo hi : UInt8}
    (h : (hi.toUInt16 <<< 8) ||| lo.toUInt16 = crc) : crcBytes crc = [lo, hi] := by
  have hlo : lo.toNat < 2 ^ 8 := lo.toNat_lt
  have hhi := hi.toNat_lt
  have hnat : crc.toNat = 2 ^ 8 * hi.toNat + lo.toNat := by
    have hs : (hi.toUInt16 <<< 8).toNat = 2 ^ 8 * hi.toNat := by
      rw [UInt16.toNat_shiftLeft, UInt8.toNat_toUInt16, Nat.shiftLeft_eq]
      show hi.toNat * 2 ^ 8 % 2 ^ 16 = _
      omega
    rw [← h, UInt16.toNat_or, hs, UInt8.toNat_toUInt16, Nat.two_pow_add_eq_or_of_lt hlo]
  have h1 : crc.toUInt8 = lo := by
    apply UInt8.toNat_inj.mp
    rw [UInt16.toNat_toUInt8, hnat]
    omega
  have h2 : (crc >>> 8).toUInt8 = hi := by
    apply UInt8.toNat_inj.mp
    rw [UInt16.toNat_toUInt8, UInt16.toNat_shiftRight, Nat.shiftRight_eq_div_pow, hnat]
    show (2 ^ 8 * hi.toNat + lo.toNat) / 2 ^ 8 % 2 ^ 8 = _
    omega
  rw [crcBytes, h1, h2]

theorem toNat_length_toUInt8 {l : List UInt8} (h : l.length ≤ EDGE_PAYLOAD_MAX) :
    l.length.toUInt8.toNat = l.length := by
  unfold EDGE_PAYLOAD_MAX at h
  rw [Nat.toUInt8_eq, UInt8.toNat_ofNat_of_lt' (by show _ < 256; omega)]

theorem toNat_one_add {l : List UInt8} (h : l.length ≤ EDGE_PAYLOAD_MAX) :
    (1 + l.length.toUInt8).toNat = l.length + 1 := by
  rw [UInt8.toNat_add, toNat_length_toUInt8 h]
  unfold EDGE_PAYLOAD_MAX at h
  show (1 + l.length) % 256 = _
  omega

/-- The layout of an encoded frame. -/
theorem Frame.bytes_eq {f : Frame} (h : f.payload.length ≤ EDGE_PAYLOAD_MAX) :
    f.bytes = frameHead (1 + f.payload.length.toUInt8) f.type ++ f.payload
      ++ crcBytes (edgeCrc16 ((1 + f.payload.length.toUInt8) :: f.type :: f.payload)) := by
  have hlen := toNat_length_toUInt8 h
  have hle : ¬ f.payload.length.toUInt8.toNat > EDGE_PAYLOAD_MAX := by omega
  unfold Frame.bytes edgeFrameEncode
  rw [if_neg hle, if_neg (by simp)]
  simp only [Option.getD_some, hlen, List.take_length, toUInt8_and_255]
  rfl

/-! ## The unfinished frame -/

/-- LEN is in range. -/
def LenOk (len : UInt8) : Prop := 1 ≤ len.toNat ∧ len.toNat ≤ 64

/-- The bytes `body` are the payload received so far, in the buffer and in the checksum. -/
structure Received (p : EdgeParser) (body : List UInt8) : Prop where
  len_ok : LenOk p.len
  received : body.length = p.received.toNat
  le_len : body.length ≤ p.len.toNat - 1
  stored : p.payload.toList.take body.length = body
  crc : p.crc = edgeCrc16 (p.len :: p.type :: body)

/-- The parser has read `cur` since the header byte it is committed to. -/
def Reading (p : EdgeParser) (cur : List UInt8) : Prop :=
  match p.state with
  | .waitHdr0 => cur = []
  | .waitHdr1 => cur = [EDGE_HDR0]
  | .waitLen => cur = [EDGE_HDR0, EDGE_HDR1] ∧ p.crc = EDGE_CRC16_INIT
  | .waitType =>
      cur = [EDGE_HDR0, EDGE_HDR1, p.len] ∧ LenOk p.len ∧ p.crc = edgeCrc16 [p.len]
  | .readPayload =>
      ∃ body, cur = frameHead p.len p.type ++ body ∧ Received p body ∧
        body.length < p.len.toNat - 1
  | .waitCrcLo =>
      ∃ body, cur = frameHead p.len p.type ++ body ∧ Received p body ∧
        body.length = p.len.toNat - 1
  | .waitCrcHi =>
      ∃ body, cur = frameHead p.len p.type ++ body ++ [p.crcLo] ∧ Received p body ∧
        body.length = p.len.toNat - 1
  | .deliver => False

theorem reading_init (p : EdgeParser) (onFrame : Bool) :
    Reading (edgeParserInit p onFrame) [] := rfl

theorem reading_resync (p : EdgeParser) : Reading (edgeParserResync p) [] := rfl

/-- The next payload byte lands behind the ones already stored. -/
theorem take_set_succ (l : List UInt8) (n : Nat) (b : UInt8) (h : n < l.length) :
    (l.set n b).take (n + 1) = l.take n ++ [b] := by
  rw [List.take_add_one, List.take_set_of_le (Nat.le_refl n), List.getElem?_set_self h]
  rfl

/-- The parser after storing one payload byte, in state `st`. -/
def EdgeParser.push (p : EdgeParser) (b : UInt8) (st : EdgeState) : EdgeParser :=
  { p with payload := p.payload.setIfInBounds p.received.toNat b, received := p.received + 1,
           crc := edgeCrc16Update p.crc b, state := st }

theorem Received.push {p : EdgeParser} {body : List UInt8} (h : Received p body)
    (hlt : body.length < p.len.toNat - 1) (b : UInt8) (st : EdgeState) :
    Received (p.push b st) (body ++ [b]) := by
  obtain ⟨hlen, hrec, hle, hst, hcrc⟩ := h
  unfold LenOk at hlen
  have hbuf : body.length < p.payload.toList.length := by
    rw [Vector.length_toList]; show _ < 63; omega
  refine ⟨hlen, ?_, ?_, ?_, ?_⟩
  · show _ = (p.received + 1).toNat
    rw [UInt8.toNat_add, ← hrec, List.length_append]
    show _ = (body.length + 1) % 256
    simp only [List.length_singleton]
    omega
  · show _ ≤ p.len.toNat - 1
    simp only [List.length_append, List.length_singleton]
    omega
  · show (p.payload.setIfInBounds p.received.toNat b).toList.take _ = _
    rw [Vector.toList_setIfInBounds, ← hrec, List.length_append, List.length_singleton,
      take_set_succ _ _ _ hbuf, hst]
  · show edgeCrc16Update p.crc b = edgeCrc16 (p.len :: p.type :: (body ++ [b]))
    rw [hcrc]
    simp [edgeCrc16, List.foldl_append]

/-! ## One byte -/

/-- The frame the parser is about to deliver. -/
theorem Received.frame_payload {p : EdgeParser} {body : List UInt8} (h : Received p body)
    (hfull : body.length = p.len.toNat - 1) : p.frame.payload = body := by
  obtain ⟨hlen, -, -, hst, -⟩ := h
  unfold LenOk at hlen
  have hsub : (p.len - 1).toNat = p.len.toNat - 1 := by
    rw [UInt8.toNat_sub_of_le _ _ (by rw [UInt8.le_iff_toNat_le]; exact hlen.1)]
    rfl
  show p.payload.toList.take (p.len - 1).toNat = body
  rw [hsub, ← hfull, hst]

/-- A complete span with the right checksum is an encoding. -/
theorem bytes_of_join {len type lo hi : UInt8} {body : List UInt8} (hlen : LenOk len)
    (hfull : body.length = len.toNat - 1)
    (hcrc : (hi.toUInt16 <<< 8) ||| lo.toUInt16 = edgeCrc16 (len :: type :: body)) :
    body.length ≤ EDGE_PAYLOAD_MAX ∧
      frameHead len type ++ body ++ [lo] ++ [hi] = (⟨type, body⟩ : Frame).bytes := by
  unfold LenOk at hlen
  have hle : body.length ≤ EDGE_PAYLOAD_MAX := by
    unfold EDGE_PAYLOAD_MAX
    omega
  have hadd : 1 + body.length.toUInt8 = len := by
    apply UInt8.toNat_inj.mp
    rw [toNat_one_add hle]
    omega
  have hbytes := Frame.bytes_eq (f := ⟨type, body⟩) hle
  simp only [hadd, crcBytes_of_join hcrc] at hbytes
  refine ⟨hle, ?_⟩
  rw [hbytes, List.append_assoc _ [lo] [hi]]
  rfl

/-- `edge_parser_feed` while the payload is read. -/
theorem feed_readPayload {p : EdgeParser} (h : p.state = .readPayload) (b : UInt8) :
    edgeParserFeed p b
      = (p.push b (if p.received + 1 ≥ p.len - 1 then .waitCrcLo else .readPayload), []) := by
  unfold edgeParserFeed
  simp only [h]
  split <;> simp [EdgeParser.push]

/-- Whether the byte after `body` is the last payload byte. -/
theorem Received.last_iff {p : EdgeParser} {body : List UInt8} (h : Received p body)
    (hlt : body.length < p.len.toNat - 1) :
    p.received + 1 ≥ p.len - 1 ↔ body.length + 1 = p.len.toNat - 1 := by
  have hsub : (p.len - 1).toNat = p.len.toNat - 1 := by
    rw [UInt8.toNat_sub_of_le _ _ (by rw [UInt8.le_iff_toNat_le]; exact h.len_ok.1)]
    rfl
  have hnext : body.length + 1 = (p.received + 1).toNat := by
    simpa [EdgeParser.push] using (h.push hlt 0 .readPayload).received
  rw [ge_iff_le, UInt8.le_iff_toNat_le, hsub, ← hnext]
  omega

/-- The type byte: the payload follows, or the checksum when there is none. -/
theorem type_reading {p : EdgeParser} (hst : p.state = .waitType) (hlen : LenOk p.len)
    (hcrc : p.crc = edgeCrc16 [p.len]) (b : UInt8) :
    Reading (edgeParserFeed p b).1 (frameHead p.len b) := by
  have hrec : ∀ st, Received { p with type := b, crc := edgeCrc16Update p.crc b,
                                      received := 0, state := st } [] :=
    fun st => ⟨hlen, rfl, Nat.zero_le _, rfl, by
      show edgeCrc16Update p.crc b = _
      rw [hcrc]
      rfl⟩
  simp only [edgeParserFeed, hst]
  by_cases hmin : p.len = EDGE_LEN_MIN
  · simp only [hmin, if_true, Reading]
    exact ⟨[], by simp, hmin ▸ hrec _, rfl⟩
  · simp only [hmin, if_false, Reading]
    refine ⟨[], by simp, hrec _, ?_⟩
    have hne : p.len.toNat ≠ 1 := fun h => hmin (UInt8.toNat_inj.mp h)
    have hpos := hlen.1
    show 0 < p.len.toNat - 1
    omega

/-- A payload byte: the checksum follows the last one. -/
theorem payload_reading {p : EdgeParser} {body : List UInt8} (hst : p.state = .readPayload)
    (h : Received p body) (hlt : body.length < p.len.toNat - 1) (b : UInt8) :
    Reading (edgeParserFeed p b).1 (frameHead p.len p.type ++ (body ++ [b])) := by
  rw [feed_readPayload hst b]
  have hlen : (body ++ [b]).length = body.length + 1 := by simp
  by_cases hfull : p.received + 1 ≥ p.len - 1
  · rw [if_pos hfull]
    refine ⟨_, rfl, h.push hlt b .waitCrcLo, ?_⟩
    rw [hlen]
    exact (h.last_iff hlt).mp hfull
  · rw [if_neg hfull]
    refine ⟨_, rfl, h.push hlt b .readPayload, ?_⟩
    have hne := mt (h.last_iff hlt).mpr hfull
    show (body ++ [b]).length < p.len.toNat - 1
    rw [hlen]
    omega

/-- The low checksum byte. -/
theorem crcLo_reading {p : EdgeParser} {body : List UInt8} (hst : p.state = .waitCrcLo)
    (h : Received p body) (hfull : body.length = p.len.toNat - 1) (b : UInt8) :
    Reading (edgeParserFeed p b).1 (frameHead p.len p.type ++ body ++ [b]) := by
  simp only [edgeParserFeed, hst]
  exact ⟨body, rfl, ⟨h.len_ok, h.received, h.le_len, h.stored, h.crc⟩, hfull⟩

/-- Everything one byte `b` can do to the bytes `cur` of the current span. -/
inductive FeedCase (cur : List UInt8) (b : UInt8) : List UInt8 → List Frame → Prop
  | noise : cur = [] → b ≠ EDGE_HDR0 → FeedCase cur b [] []
  | again : cur = [EDGE_HDR0] → b = EDGE_HDR0 → FeedCase cur b [EDGE_HDR0] []
  | noHeader : cur = [EDGE_HDR0] → b ≠ EDGE_HDR0 → b ≠ EDGE_HDR1 → FeedCase cur b [] []
  | badLen : cur = [EDGE_HDR0, EDGE_HDR1] → ¬ LenOk b → FeedCase cur b [] []
  | grows : FeedCase cur b (cur ++ [b]) []
  | badCrc (len type lo : UInt8) (body : List UInt8) :
      cur = frameHead len type ++ body ++ [lo] → LenOk len → body.length = len.toNat - 1 →
      (b.toUInt16 <<< 8) ||| lo.toUInt16 ≠ edgeCrc16 (len :: type :: body) → FeedCase cur b [] []
  | frame (len type lo : UInt8) (body : List UInt8) :
      cur = frameHead len type ++ body ++ [lo] → LenOk len → body.length = len.toNat - 1 →
      (b.toUInt16 <<< 8) ||| lo.toUInt16 = edgeCrc16 (len :: type :: body) →
      FeedCase cur b [] [⟨type, body⟩]

/-- **One byte keeps the parser in step with the stream.** -/
theorem feed_cases {p : EdgeParser} {cur : List UInt8} (h : Reading p cur)
    (hon : p.onFrame = true) (b : UInt8) :
    ∃ cur', Reading (edgeParserFeed p b).1 cur' ∧ FeedCase cur b cur' (edgeParserFeed p b).2 := by
  unfold Reading at h
  cases hst : p.state with
  | waitHdr0 =>
      simp only [hst] at h
      simp only [edgeParserFeed, hst]
      by_cases hb : b = EDGE_HDR0
      · rw [if_pos hb]
        exact ⟨cur ++ [b], by rw [h, hb]; rfl, .grows⟩
      · rw [if_neg hb]
        exact ⟨[], by simp [Reading, hst], .noise h hb⟩
  | waitHdr1 =>
      simp only [hst] at h
      simp only [edgeParserFeed, hst]
      by_cases hb : b = EDGE_HDR1
      · rw [if_pos hb]
        exact ⟨cur ++ [b], by rw [h, hb]; exact ⟨rfl, rfl⟩, .grows⟩
      · rw [if_neg hb]
        by_cases hb0 : b = EDGE_HDR0
        · rw [if_pos hb0]
          exact ⟨[EDGE_HDR0], by simp [Reading, hst], .again h hb0⟩
        · rw [if_neg hb0]
          exact ⟨[], rfl, .noHeader h hb0 hb⟩
  | waitLen =>
      simp only [hst] at h
      obtain ⟨hcur, hcrc⟩ := h
      simp only [edgeParserFeed, hst]
      have hrange : (b < EDGE_LEN_MIN ∨ EDGE_LEN_MAX < b) ↔ ¬ LenOk b := by
        rw [LenOk, UInt8.lt_iff_toNat_lt, UInt8.lt_iff_toNat_lt]
        show b.toNat < 1 ∨ 64 < b.toNat ↔ _
        omega
      by_cases hb : LenOk b
      · rw [if_neg (by rw [hrange, not_not]; exact hb)]
        refine ⟨cur ++ [b], ⟨by rw [hcur]; rfl, hb, by rw [hcrc]; rfl⟩, .grows⟩
      · rw [if_pos (hrange.mpr hb)]
        exact ⟨[], reading_resync _, .badLen hcur hb⟩
  | waitType =>
      simp only [hst] at h
      obtain ⟨hcur, hlen, hcrc⟩ := h
      have hread := type_reading hst hlen hcrc b
      have hnone : (edgeParserFeed p b).2 = [] := by simp only [edgeParserFeed, hst]
      rw [hnone]
      exact ⟨cur ++ [b], by rw [hcur]; exact hread, .grows⟩
  | readPayload =>
      simp only [hst] at h
      obtain ⟨body, hcur, hrec, hlt⟩ := h
      have hread := payload_reading hst hrec hlt b
      have hnone : (edgeParserFeed p b).2 = [] := by rw [feed_readPayload hst b]
      rw [hnone]
      exact ⟨cur ++ [b], by rw [hcur, List.append_assoc]; exact hread, .grows⟩
  | waitCrcLo =>
      simp only [hst] at h
      obtain ⟨body, hcur, hrec, hfull⟩ := h
      have hread := crcLo_reading hst hrec hfull b
      have hnone : (edgeParserFeed p b).2 = [] := by simp only [edgeParserFeed, hst]
      rw [hnone]
      exact ⟨cur ++ [b], by rw [hcur]; exact hread, .grows⟩
  | waitCrcHi =>
      simp only [hst] at h
      obtain ⟨body, hcur, hrec, hfull⟩ := h
      simp only [edgeParserFeed, hst, edgeParserDeliver]
      by_cases hcrc : (b.toUInt16 <<< 8) ||| p.crcLo.toUInt16 = p.crc
      · have hframe : p.frame = ⟨p.type, body⟩ := by
          rw [← hrec.frame_payload hfull]
          rfl
        rw [if_pos hcrc]
        refine ⟨[], rfl, ?_⟩
        show FeedCase cur b [] (if p.onFrame then [p.frame] else [])
        rw [hon, if_pos rfl, hframe]
        exact .frame _ _ _ _ hcur hrec.len_ok hfull (hcrc.trans hrec.crc)
      · rw [if_neg hcrc]
        exact ⟨[], reading_resync _, .badCrc _ _ _ _ hcur hrec.len_ok hfull
          (fun heq => hcrc (heq.trans hrec.crc.symm))⟩
  | deliver => simp only [hst] at h

/-- A byte that drops a prefix of the unfinished frame with it, or completes an encoding. -/
theorem FeedCase.split {cur cur' : List UInt8} {b : UInt8} {fs : List Frame}
    (h : FeedCase cur b cur' fs) :
    (fs = [] ∧ ∃ dropped, cur ++ [b] = dropped ++ cur') ∨
      ∃ f : Frame, fs = [f] ∧ cur' = [] ∧ f.payload.length ≤ EDGE_PAYLOAD_MAX ∧
        cur ++ [b] = f.bytes := by
  cases h with
  | noise => exact .inl ⟨rfl, _, (List.append_nil _).symm⟩
  | again hcur hb => exact .inl ⟨rfl, [EDGE_HDR0], by rw [hcur, hb]⟩
  | noHeader => exact .inl ⟨rfl, _, (List.append_nil _).symm⟩
  | badLen => exact .inl ⟨rfl, _, (List.append_nil _).symm⟩
  | grows => exact .inl ⟨rfl, [], rfl⟩
  | badCrc => exact .inl ⟨rfl, _, (List.append_nil _).symm⟩
  | frame len type lo body hcur hlen hfull hok =>
      obtain ⟨hle, hbytes⟩ := bytes_of_join hlen hfull hok
      exact .inr ⟨_, rfl, rfl, hle, by rw [hcur, hbytes]⟩

theorem onFrame_feed (p : EdgeParser) (b : UInt8) : (edgeParserFeed p b).1.onFrame = p.onFrame := by
  cases hst : p.state with
  | waitHdr0 => simp only [edgeParserFeed, hst]; split <;> rfl
  | waitHdr1 => simp only [edgeParserFeed, hst]; split <;> [rfl; (split <;> rfl)]
  | waitLen => simp only [edgeParserFeed, hst]; split <;> rfl
  | waitType => simp only [edgeParserFeed, hst]
  | readPayload => rw [feed_readPayload hst]; rfl
  | waitCrcLo => simp only [edgeParserFeed, hst]
  | waitCrcHi =>
      simp only [edgeParserFeed, hst, edgeParserDeliver, apply_ite Prod.fst,
        apply_ite EdgeParser.onFrame]
      exact ite_self _
  | deliver => simp only [edgeParserFeed, hst]; rfl

@[simp] theorem framesOk_resync (p : EdgeParser) :
    (edgeParserResync p).stats.framesOk = p.stats.framesOk := rfl

/-- A byte counts the frame it delivers. -/
theorem framesOk_feed {p : EdgeParser} (hon : p.onFrame = true) (b : UInt8) :
    (edgeParserFeed p b).1.stats.framesOk
      = p.stats.framesOk + (edgeParserFeed p b).2.length.toUInt32 := by
  cases hst : p.state with
  | waitHdr0 => simp only [edgeParserFeed, hst]; split <;> simp
  | waitHdr1 => simp only [edgeParserFeed, hst]; split <;> [simp; (split <;> simp)]
  | waitLen => simp only [edgeParserFeed, hst]; split <;> simp
  | waitType => simp [edgeParserFeed, hst]
  | readPayload => rw [feed_readPayload hst]; simp [EdgeParser.push]
  | waitCrcLo => simp [edgeParserFeed, hst]
  | waitCrcHi =>
      simp only [edgeParserFeed, hst, edgeParserDeliver, hon, if_true]
      split
      · rfl
      · simp
  | deliver => simp [edgeParserFeed, hst]

/-! ## Streams -/

/-- The encodings of `frames`, each behind its gap. -/
def interleave (gaps : List (List UInt8)) (frames : List Frame) : List UInt8 :=
  (List.zipWith (fun gap f => gap ++ f.bytes) gaps frames).flatten

theorem interleave_concat {gaps : List (List UInt8)} {frames : List Frame}
    (h : gaps.length = frames.length) (gap : List UInt8) (f : Frame) :
    interleave (gaps ++ [gap]) (frames ++ [f]) = interleave gaps frames ++ gap ++ f.bytes := by
  simp [interleave, List.zipWith_append h, List.append_assoc]

/-- `stream` is `frames` with gaps, followed by `rest`. -/
def Carries (stream : List UInt8) (frames : List Frame) (rest : List UInt8) : Prop :=
  (∀ f ∈ frames, f.payload.length ≤ EDGE_PAYLOAD_MAX) ∧
    ∃ gaps : List (List UInt8), gaps.length = frames.length ∧
      stream = interleave gaps frames ++ rest

theorem Carries.push {stream rest : List UInt8} {frames : List Frame}
    (h : Carries stream frames rest) (b : UInt8) : Carries (stream ++ [b]) frames (rest ++ [b]) := by
  obtain ⟨hle, gaps, hlen, rfl⟩ := h
  exact ⟨hle, gaps, hlen, List.append_assoc _ _ _⟩

theorem Carries.frame {stream gap : List UInt8} {frames : List Frame} {f : Frame}
    (h : Carries stream frames (gap ++ f.bytes)) (hf : f.payload.length ≤ EDGE_PAYLOAD_MAX) :
    Carries stream (frames ++ [f]) [] := by
  obtain ⟨hle, gaps, hlen, rfl⟩ := h
  refine ⟨?_, gaps ++ [gap], by simp [hlen], ?_⟩
  · intro g hg
    rcases List.mem_append.mp hg with hg | hg
    · exact hle g hg
    · rw [List.mem_singleton.mp hg]; exact hf
  · rw [interleave_concat hlen, List.append_nil, List.append_assoc]

/-- The parser's state against everything it has read and delivered. -/
structure ParserInv (p : EdgeParser) (stream : List UInt8) (frames : List Frame) : Prop where
  onFrame : p.onFrame = true
  framesOk : p.stats.framesOk = frames.length.toUInt32
  carries : ∃ gap cur, Carries stream frames (gap ++ cur) ∧ Reading p cur

theorem ParserInv.feed {p : EdgeParser} {stream : List UInt8} {frames : List Frame}
    (h : ParserInv p stream frames) (b : UInt8) :
    ParserInv (edgeParserFeed p b).1 (stream ++ [b]) (frames ++ (edgeParserFeed p b).2) := by
  obtain ⟨hon, hok, gap, cur, hcar, hread⟩ := h
  obtain ⟨cur', hread', hcase⟩ := feed_cases hread hon b
  have hcount : (edgeParserFeed p b).1.stats.framesOk
      = (frames ++ (edgeParserFeed p b).2).length.toUInt32 := by
    rw [framesOk_feed hon, hok, List.length_append]
    simp [Nat.toUInt32_eq]
  have hpush := hcar.push b
  rw [List.append_assoc] at hpush
  refine ⟨(onFrame_feed p b).trans hon, hcount, ?_⟩
  rcases hcase.split with ⟨hnil, dropped, hcat⟩ | ⟨f, hf, rfl, hle, hcat⟩
  · rw [hcat, ← List.append_assoc] at hpush
    rw [hnil, List.append_nil]
    exact ⟨gap ++ dropped, cur', hpush, hread'⟩
  · rw [hcat] at hpush
    rw [hf]
    exact ⟨[], [], hpush.frame hle, hread'⟩

theorem ParserInv.feedBytes {p : EdgeParser} {stream : List UInt8} {frames : List Frame}
    (h : ParserInv p stream frames) (bytes : List UInt8) :
    ParserInv (edgeParserFeedBytes p bytes).1 (stream ++ bytes)
      (frames ++ (edgeParserFeedBytes p bytes).2) := by
  induction bytes generalizing p stream frames with
  | nil => simpa [edgeParserFeedBytes] using h
  | cons b rest ih =>
      have := ih (h.feed b)
      simpa [edgeParserFeedBytes, List.append_assoc] using this

theorem parserInv_init (p : EdgeParser) : ParserInv (edgeParserInit p true) [] [] :=
  ⟨rfl, rfl, [], [], ⟨by simp, [], rfl, rfl⟩, reading_init p true⟩

/-- **Parser soundness.** Whatever stream reaches a freshly initialised parser, in whatever
chunks, the delivered frames are encoded in it, one after the other without overlap and in
delivery order, and `frames_ok` counts them. -/
theorem delivered_frames_on_wire (p : EdgeParser) (calls : List FeedCall) :
    let r := runFeedCalls (edgeParserInit p true) calls
    (∃ (gaps : List (List UInt8)) (rest : List UInt8), gaps.length = r.2.length ∧
      calls.flatMap FeedCall.bytes = interleave gaps r.2 ++ rest) ∧
    (∀ f ∈ r.2, f.payload.length ≤ EDGE_PAYLOAD_MAX) ∧
    r.1.stats.framesOk.toNat = r.2.length % 2 ^ 32 := by
  intro r
  have hr : r = edgeParserFeedBytes (edgeParserInit p true) (calls.flatMap FeedCall.bytes) :=
    runFeedCalls_eq _ _
  have hinv := (parserInv_init p).feedBytes (calls.flatMap FeedCall.bytes)
  rw [← hr, List.nil_append, List.nil_append] at hinv
  obtain ⟨-, hok, gap, cur, ⟨hle, gaps, hlen, hcat⟩, -⟩ := hinv
  refine ⟨⟨gaps, gap ++ cur, hlen, hcat⟩, hle, ?_⟩
  rw [hok, Nat.toUInt32_eq, UInt32.toNat_ofNat']

end EdgeGateway
