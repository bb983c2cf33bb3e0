import EdgeGateway.App.ReactorSteps
import EdgeGateway.Link.TrackerProgress

set_option autoImplicit false

/-! # What the steps of the reactor keep

The line of commands and the calls of the core only go on. While no command is popped the tracker's
stage does not go up and nothing gets younger. And a request that is booked keeps its command, until
the core is told its completion.
-/

namespace EdgeGateway

open GatewayApp CommandTracker

namespace Reactor

variable {F : UInt8 → List UInt8 → Prop} {R : Prop} {s s' s'' : Reactor}

/-! ## Nothing is taken back -/

/-- Commands stay in line, what was popped and told stays so, and the clock goes on. -/
structure Onward (s s' : Reactor) : Prop where
  line : s.popped ++ s.cmdQueue <+: s'.popped ++ s'.cmdQueue
  popped : s.popped <+: s'.popped
  calls : s.calls <+: s'.calls
  clock : ∃ k, s'.clock = fun n => s.clock (n + k)

theorem Onward.refl (s : Reactor) : Onward s s :=
  ⟨List.prefix_refl _, List.prefix_refl _, List.prefix_refl _, 0, rfl⟩

theorem Onward.trans (h : Onward s s') (h' : Onward s' s'') : Onward s s'' where
  line := h.line.trans h'.line
  popped := h.popped.trans h'.popped
  calls := h.calls.trans h'.calls
  clock := by
    obtain ⟨k, hk⟩ := h.clock
    obtain ⟨l, hl⟩ := h'.clock
    refine ⟨l + k, ?_⟩
    rw [hl, hk]
    funext n
    exact congrArg s.clock (Nat.add_assoc n l k)

/-- More commands come to the end of the queue. -/
theorem poll_more (s : Reactor) : ∃ more, s.poll =
    { s with cmdQueue := s.cmdQueue ++ more, arrivals := fun n => s.arrivals (n + 1) } := by
  unfold poll
  refine List.foldlRecOn (motive := fun r : Reactor => ∃ more, r =
    { s with cmdQueue := s.cmdQueue ++ more, arrivals := fun n => s.arrivals (n + 1) })
    (s.arrivals 0) _ ⟨[], by rw [List.append_nil]⟩ ?_
  rintro _ ⟨more, rfl⟩ d _
  unfold tryPush
  split_ifs
  · exact ⟨more, rfl⟩
  · exact ⟨more ++ [d], by rw [List.append_assoc]⟩

theorem poll_onward (s : Reactor) : Onward s s.poll := by
  obtain ⟨more, heq⟩ := poll_more s
  rw [heq]
  refine ⟨?_, List.prefix_refl _, List.prefix_refl _, 0, rfl⟩
  show s.popped ++ s.cmdQueue <+: s.popped ++ (s.cmdQueue ++ more)
  rw [← List.append_assoc]
  exact List.prefix_append _ _

/-- A queue that is not empty can be popped. -/
theorem exists_tryPop (h : s.cmdQueue ≠ []) :
    s.poll.cmdQueue ≠ [] ∧ ∃ d owner, s.tryPop = some (d, owner) := by
  have hpolled : s.poll.cmdQueue ≠ [] := by
    obtain ⟨more, heq⟩ := poll_more s
    rw [heq]
    exact List.append_ne_nil_of_left_ne_nil h more
  refine ⟨hpolled, ?_⟩
  unfold tryPop
  cases hqueue : s.poll.cmdQueue with
  | nil => exact absurd hqueue hpolled
  | cons d rest => exact ⟨d, _, rfl⟩

theorem tryPop_onward {d : Downlink} {owner : Reactor} (h : s.tryPop = some (d, owner)) :
    Onward s owner := by
  obtain ⟨rest, hqueue, rfl⟩ := tryPop_eq_some h
  refine (poll_onward s).trans ⟨?_, List.prefix_append _ _, List.prefix_refl _, 0, rfl⟩
  rw [hqueue]
  show s.poll.popped ++ d :: rest <+: (s.poll.popped ++ [d]) ++ rest
  rw [List.append_assoc]
  exact List.prefix_refl _

/-- Completions that are delivered are told, or they are no longer booked. -/
theorem deliver_onward (finished : List CommandCompletion) (s : Reactor) :
    Onward s (finished.foldl deliver s) := by
  refine List.foldlRecOn (motive := fun u : Reactor => Onward s u) finished deliver (.refl s) ?_
  intro u hu done _
  refine hu.trans ?_
  unfold deliver
  cases u.requests.find? done.seq with
  | none => exact .refl u
  | some id => exact ⟨List.prefix_refl _, List.prefix_refl _, List.prefix_append _ _, 0, rfl⟩

theorem Step.onward (h : Step F R s s') : Onward s s' := by
  have hsame : ∀ u : Reactor, Onward u u := .refl
  cases h with
  | now => exact ⟨List.prefix_refl _, List.prefix_refl _, List.prefix_refl _, 1, rfl⟩
  | channel out => exact ⟨(hsame s).line, (hsame s).popped, (hsame s).calls, (hsame s).clock⟩
  | unencoded => exact ⟨(hsame s).line, (hsame s).popped, (hsame s).calls, (hsame s).clock⟩
  | poll => exact poll_onward s
  | rejected owner d hpop =>
      exact (tryPop_onward hpop).trans
        ⟨List.prefix_refl _, List.prefix_refl _, List.prefix_append _ _, 0, rfl⟩
  | refused owner d hpop =>
      exact (tryPop_onward hpop).trans
        ⟨List.prefix_refl _, List.prefix_refl _, List.prefix_append _ _, 1, rfl⟩
  | accepted owner d hpop =>
      exact (tryPop_onward hpop).trans
        ⟨List.prefix_refl _, List.prefix_refl _, List.prefix_refl _, 1, rfl⟩
  | called call hallowed r =>
      have hadvanced : Onward s (s.advance r) :=
        ⟨(hsame s).line, (hsame s).popped, (hsame s).calls, (hsame s).clock⟩
      exact hadvanced.trans (deliver_onward r.2.finished _)

theorem Run.onward (h : Run F R s s') : Onward s s' := by
  induction h with
  | refl => exact .refl s
  | tail _ hstep ih => exact ih.trans hstep.onward

/-- A step that pops a command makes the popped ones more. -/
theorem tryPop_popped {d : Downlink} {owner : Reactor} (h : s.tryPop = some (d, owner)) :
    s.popped.length < owner.popped.length := by
  obtain ⟨rest, -, rfl⟩ := tryPop_eq_some h
  have hle := (poll_onward s).popped.length_le
  rw [List.length_append, List.length_singleton]
  omega

theorem Run.sound (h : Run F R s s') (hs : s.tracker.Sound) : s'.tracker.Sound := by
  obtain ⟨es, hsteps, -⟩ := h.calls
  refine Steps.invariant (I := fun t _ => CommandTracker.Sound t) (fun t es es' u hI hcalled => ?_) []
    hsteps hs
  obtain ⟨call, -, heq⟩ := hcalled
  have := sound_call hI call
  rwa [heq] at this

/-! ## While no command is popped -/

/-- What steps without a pop leave of the tracker's way to its next command. -/
structure Idle (t t' : CommandTracker) : Prop where
  stage : t'.stage ≤ t.stage
  openingAt : t.state = .opening → t'.state = .opening → t'.openingAt = t.openingAt
  queuedAt : ∀ seq e', t'.entries.find? seq = some e' →
    ∃ e, t.entries.find? seq = some e ∧ e'.queuedAt = e.queuedAt

theorem Idle.refl (t : CommandTracker) : Idle t t :=
  ⟨Nat.le_refl _, fun _ _ => rfl, fun _ e he => ⟨e, he, rfl⟩⟩

theorem Idle.trans {t t' t'' : CommandTracker} (h : Idle t t') (h' : Idle t' t'') : Idle t t'' where
  stage := Nat.le_trans h'.stage h.stage
  openingAt := by
    intro hopening hopening''
    -- the stage in between is that of a handshake too
    have hmiddle : t'.state = .opening := by
      have := h.stage
      have := h'.stage
      rw [stage_opening hopening] at *
      rw [stage_opening hopening''] at *
      exact state_of_stage_one (by omega)
    exact (h'.openingAt hmiddle hopening'').trans (h.openingAt hopening hmiddle)
  queuedAt := by
    intro seq e'' he''
    obtain ⟨e', he', heq'⟩ := h'.queuedAt seq e'' he''
    obtain ⟨e, he, heq⟩ := h.queuedAt seq e' he'
    exact ⟨e, he, heq'.trans heq⟩

theorem usual_of_allowed {t : CommandTracker} {call : TrackerCall}
    (h : Allowed F False t call) : Usual t call where
  submit := by
    rintro type args now rfl
    exact h
  start := by
    rintro session now rfl
    exact h.resolve_right id

theorem call_idle {t : CommandTracker} (hw : t.WindowInv) {call : TrackerCall}
    (h : Usual t call) : Idle t (t.call call).1 where
  stage := stage_call hw h
  openingAt := openingAt_call hw h
  queuedAt := fun _ _ he' => (queued_call hw h he').2

theorem Step.idle (hs : s.tracker.Sound) (h : Step F False s s')
    (hpopped : s'.popped.length = s.popped.length) : Idle s.tracker s'.tracker := by
  cases h with
  | poll =>
      rw [poll_tracker]
      exact .refl _
  | rejected owner d hpop => exact absurd (tryPop_popped hpop) (Nat.not_lt.mpr (Nat.le_of_eq hpopped))
  | refused owner d hpop => exact absurd (tryPop_popped hpop) (Nat.not_lt.mpr (Nat.le_of_eq hpopped))
  | accepted owner d hpop => exact absurd (tryPop_popped hpop) (Nat.not_lt.mpr (Nat.le_of_eq hpopped))
  | called call hallowed r hcall =>
      rw [(deliver_all r.2.finished (s.advance r)).1]
      have hidle := call_idle hs.window (usual_of_allowed hallowed)
      rw [hcall] at hidle
      exact hidle
  | _ => exact .refl _

theorem Run.idle (hs : s.tracker.Sound) (h : Run F False s s')
    (hpopped : s'.popped.length = s.popped.length) : Idle s.tracker s'.tracker := by
  induction h with
  | refl => exact .refl _
  | @tail u v hrun hstep ih =>
      have hbefore := (Run.onward hrun).popped.length_le
      have hafter := hstep.onward.popped.length_le
      exact (ih (by omega)).trans (hstep.idle (Run.sound hrun hs) (by omega))

/-! ## Requests -/

/-- The request `id` is booked under `seq`, with a command that was accepted at `queuedAt`. -/
structure Waits (s : Reactor) (seq : UInt8) (id : RequestId) (queuedAt : TimePoint) : Prop where
  booked : s.requests.find? seq = some id
  entry : ∃ e, s.tracker.entries.find? seq = some e ∧ e.queuedAt = queuedAt

/-- The core is told a completion for `id`. -/
def Told (s : Reactor) (id : RequestId) : Prop := ∃ completion, .finished id completion ∈ s.calls

theorem Told.onward {id : RequestId} (h : s.Told id) (h' : Onward s s') : s'.Told id := by
  obtain ⟨completion, hmem⟩ := h
  exact ⟨completion, h'.calls.subset hmem⟩

/-- A completion of a number that is booked is told. -/
theorem deliver_told {seq : UInt8} {id : RequestId} (finished : List CommandCompletion) :
    ∀ s : Reactor, s.requests.find? seq = some id →
      (finished.foldl deliver s).Told id ∨
        (finished.foldl deliver s).requests.find? seq = some id ∧
          ∀ done ∈ finished, done.seq ≠ seq := by
  induction finished with
  | nil => exact fun s hbooked => .inr ⟨hbooked, fun _ h => by cases h⟩
  | cons done rest ih =>
      intro s hbooked
      rw [List.foldl_cons]
      by_cases hseq : done.seq = seq
      · left
        have htold : (s.deliver done).Told id := by
          unfold deliver
          rw [hseq, hbooked]
          exact ⟨done, List.mem_append_right _ List.mem_cons_self⟩
        exact htold.onward (deliver_onward rest _)
      · have hkept : (s.deliver done).requests.find? seq = some id := by
          unfold deliver
          cases hother : s.requests.find? done.seq with
          | none => exact hbooked
          | some other =>
              show (s.requests.erase done.seq).find? seq = some id
              rw [KeyMap.find?_erase, if_neg (Ne.symm hseq)]
              exact hbooked
        rcases ih (s.deliver done) hkept with htold | ⟨hbooked', hrest⟩
        · exact .inl htold
        · exact .inr ⟨hbooked', List.forall_mem_cons.mpr ⟨hseq, hrest⟩⟩

theorem Step.waits {seq : UInt8} {id : RequestId} {queuedAt : TimePoint} (hs : s.tracker.Sound)
    (h : Step F False s s') (hwaits : s.Waits seq id queuedAt) :
    s'.Waits seq id queuedAt ∨ s'.Told id := by
  obtain ⟨hbooked, e, hentry, hqueued⟩ := hwaits
  have hsame : ∀ u : Reactor, u.requests = s.requests → u.tracker = s.tracker →
      u.Waits seq id queuedAt := fun u hrequests htracker =>
    ⟨hrequests ▸ hbooked, e, htracker ▸ hentry, hqueued⟩
  have hpopped : ∀ (d : Downlink) (owner : Reactor), s.tryPop = some (d, owner) →
      owner.Waits seq id queuedAt := by
    intro d owner hpop
    refine hsame owner ?_ (tryPop_tracker hpop).1
    obtain ⟨queue, heq⟩ := poll_eq s
    obtain ⟨rest, -, rfl⟩ := tryPop_eq_some hpop
    rw [heq]
  cases h with
  | poll =>
      obtain ⟨queue, heq⟩ := poll_eq s
      rw [heq]
      exact .inl ⟨hbooked, e, hentry, hqueued⟩
  | rejected owner d hpop => exact .inl ⟨(hpopped d owner hpop).booked, (hpopped d owner hpop).entry⟩
  | refused owner d hpop hsend =>
      left
      have hwaits := hpopped d owner hpop
      have htracker : (owner.now.2.accept d owner.now.1).1.tracker = owner.tracker := by
        unfold accept at hsend ⊢
        dsimp only at hsend ⊢
        unfold submit at hsend ⊢
        split_ifs at hsend ⊢
        rfl
      exact ⟨hwaits.booked, htracker ▸ hwaits.entry⟩
  | accepted owner d hpop send hsend =>
      left
      have hwaits := hpopped d owner hpop
      obtain ⟨e', hentry', hqueued'⟩ := hwaits.entry
      have htracker : (owner.now.2.accept d owner.now.1).1.tracker.entries.find? seq = some e' := by
        unfold accept at hsend ⊢
        dsimp only at hsend ⊢
        unfold submit at hsend ⊢
        split_ifs at hsend ⊢
        exact KeyMap.find?_emplace_of_some hentry' _ _
      exact ⟨KeyMap.find?_emplace_of_some hwaits.booked _ _, e', htracker, hqueued'⟩
  | called call hallowed r hcall =>
      have husual := usual_of_allowed hallowed
      rcases deliver_told r.2.finished (s.advance r) hbooked with htold | ⟨hbooked', hnone⟩
      · exact .inr htold
      · left
        refine ⟨hbooked', ?_⟩
        rw [(deliver_all r.2.finished (s.advance r)).1]
        have hkept := kept_call hs.window husual hentry
        rw [hcall] at hkept
        rcases hkept with ⟨e', he', heq⟩ | ⟨session, completion, hfinish, hseq⟩
        · exact ⟨e', he', heq.trans hqueued⟩
        · have hmem : (session, completion) ∈ finishes (r.2.events s.tracker.session) :=
            mem_finishes.mpr hfinish
          rw [finishes_events] at hmem
          obtain ⟨c, hc, hsame⟩ := List.mem_map.mp hmem
          obtain ⟨-, rfl⟩ := Prod.mk.inj hsame
          exact absurd hseq (hnone c hc)
  | _ => exact .inl ⟨hbooked, e, hentry, hqueued⟩

theorem Run.waits {seq : UInt8} {id : RequestId} {queuedAt : TimePoint} (hs : s.tracker.Sound)
    (h : Run F False s s') (hwaits : s.Waits seq id queuedAt) :
    s'.Waits seq id queuedAt ∨ s'.Told id := by
  induction h with
  | refl => exact .inl hwaits
  | tail hrun hstep ih =>
      rcases ih with hkept | htold
      · exact hstep.waits (Run.sound hrun hs) hkept
      · exact .inr (htold.onward hstep.onward)

end Reactor

end EdgeGateway
