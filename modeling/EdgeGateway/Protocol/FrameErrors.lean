import EdgeGateway.Protocol.CrcCode
import EdgeGateway.Protocol.FrameResync

set_option autoImplicit false

/-! # Damaged frames

An error pattern behind LEN leaves the span of the frame where it is, so the checksum decides: up to
sixteen consecutive bits and any odd number of bits are caught (`errors_detected`). A flipped bit in
the header or in LEN moves the span, and the parser may then look for frames inside the payload
(`single_bit_flips`).
-/

namespace EdgeGateway

/-! ## A span with a wrong checksum -/

theorem feed_anyCallback (p : EdgeParser) (b : UInt8) :
    (edgeParserFeed { p with onFrame := true } b).1
      = { (edgeParserFeed p b).1 with onFrame := true } := by
  obtain ⟨state, len, type, payload, received, crc, crcLo, crcHi, onFrame, stats⟩ := p
  cases state <;> simp only [edgeParserFeed, edgeParserDeliver]
  case deliver => rfl
  all_goals split_ifs <;> rfl

/-- The states of the parser do not depend on whether a callback is installed. -/
theorem feedBytes_anyCallback (p : EdgeParser) (bytes : List UInt8) :
    (edgeParserFeedBytes { p with onFrame := true } bytes).1
      = { (edgeParserFeedBytes p bytes).1 with onFrame := true } := by
  induction bytes generalizing p with
  | nil => rfl
  | cons b rest ih =>
      simp only [edgeParserFeedBytes, feed_anyCallback]
      exact ih _

/-- Inside a span the parser does not return to its initial state. -/
theorem inside_span {p : EdgeParser} (hst : p.state = .waitHdr0) {len : UInt8} (hlen : LenOk len)
    (rest : List UInt8) {n : Nat} (hn : 0 < n) (hlt : n < len.toNat + 5)
    (hle : n ≤ rest.length + 3) :
    (edgeParserFeedBytes p ((EDGE_HDR0 :: EDGE_HDR1 :: len :: rest).take n)).1.state ≠ .waitHdr0 := by
  by_cases hone : n = 1
  · subst hone
    simp [edgeParserFeedBytes, edgeParserFeed, hst]
  · have hread : Reading { p with onFrame := true } [] := by simp [Reading, hst]
    have hlack : lacking 0 ((EDGE_HDR0 :: EDGE_HDR1 :: len :: rest).take n) ≠ 0 := by
      by_cases htwo : n = 2
      · subst htwo
        show lacking 0 [EDGE_HDR0, EDGE_HDR1] ≠ 0
        decide
      · obtain ⟨m, rfl⟩ := Nat.exists_eq_add_of_le' (show 3 ≤ n by omega)
        show lacking 0 (EDGE_HDR0 :: EDGE_HDR1 :: len :: rest.take m) ≠ 0
        rw [lacking_open (by simp) (by rw [headSpan_lenOk hlen]; simp; omega),
          headSpan_lenOk hlen]
        simp only [List.length_cons, List.length_take]
        omega
    intro hstate
    have hscan := (feed_scan hread rfl ((EDGE_HDR0 :: EDGE_HDR1 :: len :: rest).take n)).2
    rw [feedBytes_anyCallback] at hscan
    exact hlack (hscan.mp (Or.inl hstate))

/-- A span with a wrong checksum is dropped and counted. -/
theorem feed_badCrc {p : EdgeParser} (hst : p.state = .waitHdr0) {len : UInt8} (hlen : LenOk len)
    {type lo hi : UInt8} {body : List UInt8} (hfull : body.length = len.toNat - 1)
    (hbad : (hi.toUInt16 <<< 8) ||| lo.toUInt16 ≠ edgeCrc16 (len :: type :: body)) :
    let r := edgeParserFeedBytes p (frameHead len type ++ body ++ [lo, hi])
    r.2 = [] ∧ r.1.state = .waitHdr0 ∧
      r.1.stats = { p.stats with crcErr := p.stats.crcErr + 1, resync := p.stats.resync + 1 } := by
  intro r
  obtain ⟨q, hq, -, hstats, hl, ht, hrec, hs⟩ := feed_span (Or.inl hst) hlen type hfull
  have hcrc : ¬ (hi.toUInt16 <<< 8) ||| lo.toUInt16 = q.crc := by
    rw [hrec.crc, hl, ht]
    exact hbad
  have hr : r = edgeParserFeedBytes q [lo, hi] := by
    show edgeParserFeedBytes p _ = _
    rw [edgeParserFeedBytes_append, hq]
    rfl
  rw [hr]
  simp only [edgeParserFeedBytes, edgeParserFeed, hs, edgeParserDeliver, hcrc, if_false]
  refine ⟨rfl, rfl, ?_⟩
  show { q.stats with crcErr := q.stats.crcErr + 1, resync := q.stats.resync + 1 } = _
  rw [hstats]

/-! ## Errors behind LEN -/

/-- A frame as header, LEN and what the checksum covers behind LEN. -/
theorem Frame.bytes_split {f : Frame} (h : Fits f) :
    f.bytes = EDGE_HDR0 :: EDGE_HDR1 :: (1 + f.payload.length.toUInt8) ::
      (f.type :: f.payload ++ crcBytes ((f.type :: f.payload).foldl edgeCrc16Update
        (edgeCrc16Update EDGE_CRC16_INIT (1 + f.payload.length.toUInt8)))) := by
  rw [Frame.bytes_eq h]
  rfl

/-- **What gets past the checksum**: errors confined to TYPE, payload and checksum are noticed,
counted and skipped unless they themselves leave the checksum register empty. -/
theorem errors_dropped {p : EdgeParser} (hst : p.state = .waitHdr0) {f : Frame} (hf : Fits f)
    {errors : List UInt8} (hlen : errors.length = f.bytes.length - 3)
    (hseen : errors.foldl edgeCrc16Update 0 ≠ 0) :
    let bytes := corrupt f.bytes (0 :: 0 :: 0 :: errors)
    let r := edgeParserFeedBytes p bytes
    r.2 = [] ∧ r.1.state = .waitHdr0 ∧
      r.1.stats = { p.stats with crcErr := p.stats.crcErr + 1, resync := p.stats.resync + 1 } ∧
      ∀ n, 0 < n → n < bytes.length → (edgeParserFeedBytes p (bytes.take n)).1.state ≠ .waitHdr0 := by
  intro bytes r
  let len := 1 + f.payload.length.toUInt8
  let crc := edgeCrc16Update EDGE_CRC16_INIT len
  let damaged := corrupt (f.type :: f.payload ++ crcBytes ((f.type :: f.payload).foldl
    edgeCrc16Update crc)) errors
  have hlenok : LenOk len := Frame.lenOk hf
  have hlennat : len.toNat = f.payload.length + 1 := toNat_one_add hf
  have herrors : errors.length = (f.type :: f.payload).length + 2 := by
    rw [hlen, Frame.length_bytes hf]
    rfl
  have hbytes : bytes = EDGE_HDR0 :: EDGE_HDR1 :: len :: damaged := by
    show corrupt f.bytes _ = _
    rw [Frame.bytes_split hf]
    simp [corrupt, damaged, len, crc]
  have hdamaged : damaged.length = len.toNat + 2 := by
    simp only [damaged, corrupt, List.length_zipWith, List.length_append, List.length_cons,
      crcBytes, List.length_nil, herrors, hlennat]
    omega
  obtain ⟨type, body, lo, hi, hsplit, hbody⟩ := span_bytes hlenok hdamaged
  have hbad : (hi.toUInt16 <<< 8) ||| lo.toUInt16 ≠ edgeCrc16 (len :: type :: body) := by
    intro hok
    have haccepted := (corrupt_accepted_iff herrors hsplit).mp hok
    exact hseen haccepted
  obtain ⟨hnone, hstate, hstats⟩ := feed_badCrc hst hlenok hbody hbad
  have hform : bytes = frameHead len type ++ body ++ [lo, hi] := by
    rw [hbytes, hsplit]
    simp [frameHead]
  rw [← hform] at hnone hstate hstats
  refine ⟨hnone, hstate, hstats, fun n hn hlt => ?_⟩
  rw [hbytes] at hlt ⊢
  simp only [List.length_cons, hdamaged] at hlt
  exact inside_span hst hlenok damaged hn (by omega) (by omega)

/-- **Error detection.** Damage confined to TYPE, payload and checksum that fits into sixteen
consecutive bits of wire order, or flips an odd number of bits, delivers nothing: the parser counts
one checksum error, and it is back in its initial state at the end of the frame and not before. -/
theorem errors_detected (p : EdgeParser) (f : Frame) (errors : List UInt8)
    (hst : p.state = .waitHdr0) (hfit : f.payload.length ≤ EDGE_PAYLOAD_MAX)
    (hlen : errors.length = f.bytes.length) (hconfined : errors.take 3 = [0, 0, 0])
    (hne : true ∈ wireBits errors)
    (hpattern : (∃ a, ∀ i, (wireBits errors)[i]? = some true → a ≤ i ∧ i < a + 16) ∨
      (wireBits errors).count true % 2 = 1) :
    let bytes := corrupt f.bytes errors
    let r := edgeParserFeedBytes p bytes
    r.2 = [] ∧ r.1.stats.crcErr = p.stats.crcErr + 1 ∧ r.1.stats.resync = p.stats.resync + 1 ∧
      r.1.stats.lenErr = p.stats.lenErr ∧ r.1.stats.framesOk = p.stats.framesOk ∧
      r.1.state = .waitHdr0 ∧
      ∀ n, 0 < n → n < bytes.length → (edgeParserFeedBytes p (bytes.take n)).1.state ≠ .waitHdr0 := by
  intro bytes r
  have hsplit : errors = 0 :: 0 :: 0 :: errors.drop 3 := by
    calc errors = errors.take 3 ++ errors.drop 3 := (List.take_append_drop 3 errors).symm
      _ = 0 :: 0 :: 0 :: errors.drop 3 := by rw [hconfined]; rfl
  have hseen : errors.foldl edgeCrc16Update 0 ≠ 0 := by
    rcases hpattern with ⟨a, hburst⟩ | hodd
    · exact burst_detected hne hburst
    · exact odd_detected hodd
  have hzero : edgeCrc16Update 0 0 = 0 := by decide
  have hrest : (errors.drop 3).foldl edgeCrc16Update 0 ≠ 0 := by
    rw [hsplit] at hseen
    simpa only [List.foldl_cons, hzero] using hseen
  have hlenRest : (errors.drop 3).length = f.bytes.length - 3 := by rw [List.length_drop, hlen]
  obtain ⟨hnone, hstate, hstats, hinside⟩ := errors_dropped hst hfit hlenRest hrest
  rw [← hsplit] at hnone hstate hstats hinside
  have hr : r.1.stats
      = { p.stats with crcErr := p.stats.crcErr + 1, resync := p.stats.resync + 1 } := hstats
  refine ⟨hnone, ?_, ?_, ?_, ?_, hstate, hinside⟩ <;> rw [hr]

/-- Two flipped bits at the end of TYPE and the start of the payload. -/
theorem errors_detected_burst :
    (edgeParserFeedBytes blankParser
      (corrupt (Frame.bytes ⟨0x06, [9, 0]⟩) [0, 0, 0, 0x80, 0x01, 0, 0, 0])).2 = [] := by
  have hwindow : ∀ i < 64, (wireBits [0, 0, 0, 0x80, 0x01, 0, 0, 0])[i]? = some true →
      31 ≤ i ∧ i < 31 + 16 := by decide
  have hend : ∀ i, (wireBits [0, 0, 0, 0x80, 0x01, 0, 0, 0])[i]? = some true → i < 64 := by
    intro i hi
    by_contra hge
    rw [List.getElem?_eq_none (by simpa [wireBits, byteBits] using hge)] at hi
    exact absurd hi (by simp)
  exact (errors_detected blankParser ⟨0x06, [9, 0]⟩ [0, 0, 0, 0x80, 0x01, 0, 0, 0] rfl (by decide)
    (by decide) rfl (by decide) (Or.inl ⟨31, fun i hi => hwindow i (hend i hi) hi⟩)).1

/-! ## One flipped bit -/

/-- The byte in which bit `j` alone is set. -/
def bitMask (j : Nat) : UInt8 := 1 <<< UInt8.ofNat j

/-- The bytes with bit `j` of byte `i` flipped. -/
def flipBit (bytes : List UInt8) (i j : Nat) : List UInt8 := bytes.modify i (· ^^^ bitMask j)

/-- The pattern of one flipped bit in `n` bytes. -/
def oneBit (n i j : Nat) : List UInt8 :=
  List.replicate i 0 ++ bitMask j :: List.replicate (n - i - 1) 0

theorem getElem_oneBit {n i j k : Nat} (hk : k < (oneBit n i j).length) :
    (oneBit n i j)[k] = if i = k then bitMask j else 0 := by
  simp only [oneBit, List.getElem_append, List.length_replicate, List.getElem_replicate]
  by_cases hlt : k < i
  · rw [dif_pos hlt, if_neg (by omega)]
  · rw [dif_neg hlt]
    by_cases heq : i = k
    · subst heq
      simp
    · obtain ⟨m, hm⟩ := Nat.exists_eq_add_of_le' (show 1 ≤ k - i by omega)
      rw [if_neg heq]
      simp only [hm, List.getElem_cons_succ, List.getElem_replicate]

theorem flipBit_eq_corrupt {bytes : List UInt8} {i : Nat} (hi : i < bytes.length) (j : Nat) :
    flipBit bytes i j = corrupt bytes (oneBit bytes.length i j) := by
  have hlen : (oneBit bytes.length i j).length = bytes.length := by
    simp only [oneBit, List.length_append, List.length_replicate, List.length_cons]
    omega
  apply List.ext_getElem
  · simp [flipBit, corrupt, hlen]
  · intro k hk hk'
    simp only [flipBit, corrupt, List.getElem_modify, List.getElem_zipWith, getElem_oneBit]
    by_cases heq : i = k
    · rw [if_pos heq, if_pos heq]
    · rw [if_neg heq, if_neg heq, UInt8.xor_zero]

theorem oneBit_count {j : Nat} (hj : j < 8) (n i : Nat) :
    (wireBits (oneBit n i j)).count true = 1 := by
  have hbyte : ∀ j < 8, (byteBits (bitMask j)).count true = 1 := by decide
  have hzeros : ∀ m, (wireBits (List.replicate m 0)).count true = 0 := by
    intro m
    induction m with
    | zero => rfl
    | succ m ih =>
        rw [List.replicate_succ, wireBits_cons, List.count_append, ih]
        decide
  have happ : ∀ a b : List UInt8, wireBits (a ++ b) = wireBits a ++ wireBits b :=
    fun a b => List.flatMap_append
  rw [oneBit, happ, wireBits_cons, List.count_append, List.count_append, hzeros, hzeros,
    hbyte j hj]

/-- A flipped bit behind LEN. -/
theorem flip_behind_len (p : EdgeParser) {f : Frame} {i j : Nat} (hf : Fits f)
    (hi : i < f.bytes.length) (hj : j < 8) (hbehind : 3 ≤ i) :
    (edgeParserFeedBytes (edgeParserInit p true) (flipBit f.bytes i j)).2 = [] := by
  have hcount := oneBit_count hj f.bytes.length i
  have hzero : (oneBit f.bytes.length i j).take 3 = [0, 0, 0] := by
    obtain ⟨m, rfl⟩ := Nat.exists_eq_add_of_le' hbehind
    rfl
  have hmem : true ∈ wireBits (oneBit f.bytes.length i j) :=
    List.count_pos_iff.mp (by omega)
  have hodd : (wireBits (oneBit f.bytes.length i j)).count true % 2 = 1 := by rw [hcount]
  have hseen := odd_detected hodd
  have hlen : (oneBit f.bytes.length i j).length = f.bytes.length := by
    simp only [oneBit, List.length_append, List.length_replicate, List.length_cons]
    omega
  have hsplit : oneBit f.bytes.length i j
      = 0 :: 0 :: 0 :: (oneBit f.bytes.length i j).drop 3 := by
    rw [← List.take_append_drop 3 (oneBit f.bytes.length i j), hzero]
    simp
  have hstep : edgeCrc16Update 0 0 = 0 := by decide
  rw [hsplit] at hseen
  simp only [List.foldl_cons, hstep] at hseen
  have hdrop := errors_dropped (p := edgeParserInit p true) rfl hf
    (by rw [List.length_drop, hlen]) hseen
  rw [flipBit_eq_corrupt hi, hsplit]
  exact hdrop.1

/-- Behind a damaged header, or a LEN out of range, the scan starts with TYPE. -/
theorem flip_in_head {f : Frame} {i j : Nat} (hf : Fits f) (hj : j < 8)
    (hhead : i < 2 ∨ i = 2 ∧ ¬ LenOk ((1 + f.payload.length.toUInt8) ^^^ bitMask j)) :
    framesIn 0 (flipBit f.bytes i j) = framesIn 0 (f.bytes.drop 3) := by
  have hhdr0 : ∀ j < 8, EDGE_HDR0 ^^^ bitMask j ≠ EDGE_HDR0 := by decide
  have hhdr1 : ∀ j < 8, EDGE_HDR1 ^^^ bitMask j ≠ EDGE_HDR1 := by decide
  have hhdr : ∀ j < 8, EDGE_HDR1 ^^^ bitMask j ≠ EDGE_HDR0 := by decide
  have hlen0 : 1 + f.payload.length.toUInt8 ≠ EDGE_HDR0 := by
    intro heq
    have hlen := Frame.lenOk hf
    rw [heq] at hlen
    exact absurd hlen (by decide)
  have hcases : i = 0 ∨ i = 1 ∨ i = 2 := by omega
  rw [Frame.bytes_split hf]
  rcases hcases with rfl | rfl | rfl
  · -- neither the damaged byte nor the two behind it start a header
    rw [flipBit, List.modify_zero_cons, (scan_noise (headSpan_noise (hhdr0 j hj) _)).1,
      (scan_noise (headSpan_noise (by decide) _)).1, (scan_noise (headSpan_noise hlen0 _)).1]
    rfl
  · rw [flipBit, List.modify_succ_cons, List.modify_zero_cons,
      (scan_noise (headSpan_noHdr1 (hhdr1 j hj) _ _)).1,
      (scan_noise (headSpan_noise (hhdr j hj) _)).1, (scan_noise (headSpan_noise hlen0 _)).1]
    rfl
  · have hbad := (hhead.resolve_left (by omega)).2
    rw [flipBit, List.modify_succ_cons, List.modify_succ_cons, List.modify_zero_cons]
    exact (scan_badLen hbad _).1

/-- **One flipped bit.** In TYPE, payload or checksum it is always noticed, and so it is in LEN when
it makes LEN larger and leaves it in range. A flipped bit in the header, or one that takes LEN out
of range, makes the parser look for frames in what stands behind LEN; one that makes LEN smaller
makes it take the first bytes for a frame of that length, and look for frames behind it. Every
frame delivered stands in the damaged bytes with its whole encoding. -/
theorem single_bit_flips (p : EdgeParser) (f : Frame) (i j : Nat)
    (hfit : f.payload.length ≤ EDGE_PAYLOAD_MAX) (hi : i < f.bytes.length) (hj : j < 8) :
    let bytes := flipBit f.bytes i j
    let out := (edgeParserFeedBytes (edgeParserInit p true) bytes).2
    let len := (1 + f.payload.length.toUInt8) ^^^ bitMask j
    (3 ≤ i → out = []) ∧
      (i = 2 → LenOk len → f.payload.length + 1 < len.toNat → out = []) ∧
      (i = 2 → LenOk len → len.toNat ≤ f.payload.length →
        out = (frameAt bytes).toList ++ framesIn 0 (f.bytes.drop (len.toNat + 5))) ∧
      (i < 2 ∨ i = 2 ∧ ¬ LenOk len → out = framesIn 0 (f.bytes.drop 3)) ∧
      ∀ g ∈ out, g.bytes <:+: bytes := by
  intro bytes out len
  have hread : Reading (edgeParserInit p true) [] := reading_init p true
  have hout : out = framesIn 0 bytes := (feed_scan hread rfl bytes).1
  have hcount : f.bytes.length = f.payload.length + 6 := Frame.length_bytes hfit
  have hlenByte : i = 2 → bytes = EDGE_HDR0 :: EDGE_HDR1 :: len :: f.bytes.drop 3 := by
    intro htwo
    show flipBit f.bytes i j = _
    rw [htwo, Frame.bytes_split hfit, flipBit]
    rfl
  refine ⟨flip_behind_len p hfit hi hj, fun htwo hlen hlarge => ?_, fun htwo hlen hsmall => ?_,
    fun hhead => hout.trans (flip_in_head hfit hj hhead), fun g hg => ?_⟩
  · -- the frame ends before the span does
    have hopen := framesIn_take hlen (f.bytes.drop 3) (n := f.bytes.length) (by omega)
    rw [← hlenByte htwo, List.take_of_length_le (by simp [bytes, flipBit])] at hopen
    exact hout.trans hopen
  · have hspan : headSpan bytes = len.toNat + 5 := by
      rw [hlenByte htwo, headSpan_lenOk hlen]
    have hdrop : bytes.drop (len.toNat + 5) = f.bytes.drop (len.toNat + 5) := by
      rw [hlenByte htwo]
      show (f.bytes.drop 3).drop (len.toNat + 2) = _
      rw [List.drop_drop, Nat.add_comm]
    rw [hout, framesIn_span (by rw [hlenByte htwo]; simp), hspan, hdrop]
  · rw [hout] at hg
    exact (framesIn_stands hg).2

/-- The payload of the frame is itself a frame, and bit 7 of LEN is flipped: the inner frame is
delivered. -/
theorem single_bit_flips_inner :
    (edgeParserFeedBytes (edgeParserInit blankParser true)
        (flipBit (Frame.bytes ⟨0x06, heartbeat.bytes⟩) 2 7)).2
      = framesIn 0 ((Frame.bytes ⟨0x06, heartbeat.bytes⟩).drop 3) := by
  have h := single_bit_flips blankParser ⟨0x06, heartbeat.bytes⟩ 2 7 (by decide) (by decide)
    (by decide)
  exact h.2.2.2.1 (Or.inr ⟨rfl, by decide⟩)

theorem single_bit_flips_accepted :
    ¬ ∀ (p : EdgeParser) (f : Frame) (i j : Nat), f.payload.length ≤ EDGE_PAYLOAD_MAX →
      i < f.bytes.length → j < 8 →
      (edgeParserFeedBytes (edgeParserInit p true) (flipBit f.bytes i j)).2 = [] := by
  intro h
  have hnone := h blankParser ⟨0x06, heartbeat.bytes⟩ 2 7 (by decide) (by decide) (by decide)
  have hinner : (edgeParserFeedBytes (edgeParserInit blankParser true)
      (flipBit (Frame.bytes ⟨0x06, heartbeat.bytes⟩) 2 7)).2 = [heartbeat] := by decide +kernel
  rw [hinner] at hnone
  exact absurd hnone (by simp)

end EdgeGateway
