import EdgeGateway.Protocol.FrameResync

set_option autoImplicit false

/-! # Streams of frames

A byte stream in which noise without the second header byte may stand in front of every frame. A
parser that searches for a header finds the frames, all of them and nothing else, and counts no
error; of a part of the stream it finds the frames that end in it.
-/

namespace EdgeGateway

/-- The bytes of `frames`, each behind some noise. -/
inductive FrameStream : List UInt8 → List Frame → Prop
  | nil : FrameStream [] []
  | frame {bytes noise : List UInt8} {frames : List Frame} (h : FrameStream bytes frames) {f : Frame}
      (hnoise : EDGE_HDR1 ∉ noise) (hf : Fits f) :
      FrameStream (bytes ++ (noise ++ f.bytes)) (frames ++ [f])

theorem FrameStream.wire {frames : List Frame} (hfit : ∀ f ∈ frames, Fits f) :
    FrameStream (wire frames) frames := by
  induction frames using List.reverseRecOn with
  | nil => exact .nil
  | append_singleton frames f ih =>
      have hrest := ih fun g hg => hfit g (List.mem_append_left _ hg)
      have hframe := hrest.frame (List.not_mem_nil : EDGE_HDR1 ∉ []) (hfit f (by simp))
      rw [wire_append, wire_cons, wire_nil, List.append_nil]
      exact hframe

/-! ## Feeding a stream -/

/-- One byte of noise, whatever was read of a header before. -/
theorem feed_noise_byte {p : EdgeParser} (h : Searching p) {b : UInt8} (hb : b ≠ EDGE_HDR1) :
    ∃ q, edgeParserFeed p b = (q, []) ∧ Searching q ∧ q.stats = p.stats := by
  obtain ⟨hon, hstate⟩ := h
  rcases hstate with hstate | hstate
  · by_cases hzero : b = EDGE_HDR0
    · refine ⟨{ p with state := .waitHdr1 }, ?_, ⟨hon, .inr rfl⟩, rfl⟩
      simp only [edgeParserFeed, hstate, if_pos hzero]
    · refine ⟨p, ?_, ⟨hon, .inl hstate⟩, rfl⟩
      simp only [edgeParserFeed, hstate, if_neg hzero]
  · by_cases hzero : b = EDGE_HDR0
    · refine ⟨p, ?_, ⟨hon, .inr hstate⟩, rfl⟩
      simp only [edgeParserFeed, hstate, if_neg hb, if_pos hzero]
    · refine ⟨{ p with state := .waitHdr0 }, ?_, ⟨hon, .inl rfl⟩, rfl⟩
      simp only [edgeParserFeed, hstate, if_neg hb, if_neg hzero]

theorem feed_noise {noise : List UInt8} (hnoise : EDGE_HDR1 ∉ noise) :
    ∀ {p : EdgeParser}, Searching p →
      ∃ q, edgeParserFeedBytes p noise = (q, []) ∧ Searching q ∧ q.stats = p.stats := by
  induction noise with
  | nil => exact fun h => ⟨_, rfl, h, rfl⟩
  | cons b noise ih =>
      intro p h
      rw [List.mem_cons, not_or] at hnoise
      obtain ⟨q, hfeed, hq, hstats⟩ := feed_noise_byte h (Ne.symm hnoise.1)
      obtain ⟨r, hrest, hr, hstats'⟩ := ih hnoise.2 hq
      refine ⟨r, ?_, hr, hstats'.trans hstats⟩
      simp only [edgeParserFeedBytes, hfeed, hrest, List.append_nil]

theorem CountedFrames.trans {p q r : EdgeParser} {m n : Nat} (h : CountedFrames p q m)
    (h' : CountedFrames q r n) : CountedFrames p r (m + n) := by
  unfold CountedFrames at *
  rw [h', h]
  simp only [EdgeParserStats.mk.injEq, and_true]
  rw [UInt32.add_assoc]
  congr 1
  apply UInt32.toNat_inj.mp
  simp

/-- **Noise in front of frames is invisible**: the frames are found and counted, and nothing else
is. -/
theorem FrameStream.feed {bytes : List UInt8} {frames : List Frame} (h : FrameStream bytes frames)
    {p : EdgeParser} (hp : Searching p) :
    ∃ q, edgeParserFeedBytes p bytes = (q, frames) ∧ Searching q ∧
      CountedFrames p q frames.length := by
  induction h with
  | nil =>
      refine ⟨p, rfl, hp, ?_⟩
      show p.stats = { p.stats with framesOk := p.stats.framesOk + (0 : Nat).toUInt32 }
      simp
  | @frame bytes noise frames _ f hnoise hf ih =>
      obtain ⟨q, hq, hsearch, hcount⟩ := ih
      obtain ⟨r, hr, hsearch', hstats⟩ := feed_noise hnoise hsearch
      obtain ⟨u, hu, hstate, hon, hone⟩ := feed_frame hsearch' f hf
      have hone' : CountedFrames q u 1 := by
        unfold CountedFrames at hone ⊢
        rw [hone, hstats]
      refine ⟨u, ?_, ⟨hon, .inl hstate⟩, ?_⟩
      · rw [edgeParserFeedBytes_append, hq, edgeParserFeedBytes_append, hr, hu]
        rfl
      · rw [List.length_append]
        exact hcount.trans hone'

/-- What is found in a part of the bytes is found first. -/
theorem feed_prefix (p : EdgeParser) {part bytes : List UInt8} (h : part <+: bytes) :
    (edgeParserFeedBytes p part).2 <+: (edgeParserFeedBytes p bytes).2 := by
  obtain ⟨rest, rfl⟩ := h
  rw [edgeParserFeedBytes_append]
  exact List.prefix_append _ _

/-- **Of a part of a stream the frames that it has to the end are found**, in order. -/
theorem FrameStream.feed_part {bytes part : List UInt8} {frames : List Frame}
    (h : FrameStream bytes frames) {p : EdgeParser} (hp : Searching p) (hpart : part <+: bytes) :
    (edgeParserFeedBytes p part).2 <+: frames := by
  obtain ⟨q, hq, -⟩ := h.feed hp
  have hbegins := feed_prefix p hpart
  rwa [hq] at hbegins

end EdgeGateway
