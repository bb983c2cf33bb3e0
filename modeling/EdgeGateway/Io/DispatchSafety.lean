import EdgeGateway.Io.EventLoop

set_option autoImplicit false

/-! # Dispatch safety

The kernel's registrations are those of the table, and what an earlier call has removed is dead and
waits in `dying_`. So every event of a batch finds its channel alive, and a channel that is removed
hears of nothing more.
-/

namespace EdgeGateway

namespace EventLoop

/-! ## The log -/

/-- The channel was added, and not removed since. -/
def Registered (log : List LoopEvent) (p : ChannelPtr) : Prop :=
  ∃ before after, log = before ++ .added p :: after ∧ .removed p ∉ after

/-- No callback begins behind the removal. -/
def SilentOnceRemoved (log : List LoopEvent) : Prop :=
  ∀ p before after, log = before ++ .removed p :: after → ∀ kind, .invoked p kind ∉ after

/-- An element of a list with a last one is the last one, or is in the list before. -/
theorem concat_split {log before after : List LoopEvent} {x y : LoopEvent}
    (h : log ++ [x] = before ++ y :: after) :
    (before = log ∧ y = x ∧ after = []) ∨
      ∃ after', after = after' ++ [x] ∧ log = before ++ y :: after' := by
  rcases List.eq_nil_or_concat after with rfl | ⟨after', z, rfl⟩
  · left
    obtain ⟨hlog, hx⟩ := List.append_inj' h rfl
    exact ⟨hlog.symm, (List.singleton_inj.1 hx).symm, rfl⟩
  · right
    rw [List.concat_eq_append] at h ⊢
    have happend : log ++ [x] = (before ++ y :: after') ++ [z] := by simpa using h
    obtain ⟨hlog, hx⟩ := List.append_inj' happend rfl
    exact ⟨after', by rw [List.singleton_inj.1 hx], hlog⟩

theorem registered_added (log : List LoopEvent) (p q : ChannelPtr) :
    Registered (log ++ [.added q]) p ↔ p = q ∨ Registered log p := by
  constructor
  · rintro ⟨before, after, hlog, hafter⟩
    obtain ⟨-, heq, -⟩ | ⟨after', rfl, hfront⟩ := concat_split hlog
    · exact .inl (LoopEvent.added.inj heq)
    · exact .inr ⟨before, after', hfront, fun h => hafter (List.mem_append_left _ h)⟩
  · rintro (rfl | ⟨before, after, rfl, hafter⟩)
    · exact ⟨log, [], rfl, by simp⟩
    · exact ⟨before, after ++ [.added q], by simp, by simpa using hafter⟩

theorem registered_removed (log : List LoopEvent) (p q : ChannelPtr) :
    Registered (log ++ [.removed q]) p ↔ p ≠ q ∧ Registered log p := by
  constructor
  · rintro ⟨before, after, hlog, hafter⟩
    obtain ⟨-, heq, -⟩ | ⟨after', rfl, hfront⟩ := concat_split hlog
    · cases heq
    · simp only [List.mem_append, List.mem_singleton, LoopEvent.removed.injEq, not_or] at hafter
      exact ⟨hafter.2, before, after', hfront, hafter.1⟩
  · rintro ⟨hne, before, after, rfl, hafter⟩
    exact ⟨before, after ++ [.removed q], by simp, by simp [hafter, hne]⟩

theorem registered_invoked (log : List LoopEvent) (p q : ChannelPtr) (kind : Readiness) :
    Registered (log ++ [.invoked q kind]) p ↔ Registered log p := by
  constructor
  · rintro ⟨before, after, hlog, hafter⟩
    obtain ⟨-, heq, -⟩ | ⟨after', rfl, hfront⟩ := concat_split hlog
    · cases heq
    · exact ⟨before, after', hfront, fun h => hafter (List.mem_append_left _ h)⟩
  · rintro ⟨before, after, rfl, hafter⟩
    exact ⟨before, after ++ [.invoked q kind], by simp, by simpa using hafter⟩

/-- A call that has returned invokes nothing. -/
theorem silent_call {log : List LoopEvent} (h : SilentOnceRemoved log) {x : LoopEvent}
    (hx : ∀ p kind, x ≠ .invoked p kind) : SilentOnceRemoved (log ++ [x]) := by
  intro p before after hlog kind hmem
  obtain ⟨-, -, rfl⟩ | ⟨after', rfl, hfront⟩ := concat_split hlog
  · cases hmem
  · rcases List.mem_append.1 hmem with hmem | hmem
    · exact h p before after' hfront kind hmem
    · exact hx p kind (List.mem_singleton.1 hmem).symm

/-- Neither does a callback whose channel has not been removed break it. -/
theorem silent_invoked {log : List LoopEvent} (h : SilentOnceRemoved log) {q : ChannelPtr}
    (hq : .removed q ∉ log) (kind : Readiness) : SilentOnceRemoved (log ++ [.invoked q kind]) := by
  intro p before after hlog kind' hmem
  obtain ⟨-, heq, -⟩ | ⟨after', rfl, hfront⟩ := concat_split hlog
  · cases heq
  · rcases List.mem_append.1 hmem with hmem | hmem
    · exact h p before after' hfront kind' hmem
    · obtain ⟨rfl, -⟩ := LoopEvent.invoked.inj (List.mem_singleton.1 hmem)
      exact hq (by simp [hfront])

/-! ## The invariant -/

/-- The events that `loop()` is not done with. -/
def pending (s : EventLoop) : List EpollEvent :=
  match s.point with
  | .idle => []
  | .next rest => rest
  | .reading event rest | .afterRead event rest | .writing event rest => event :: rest

structure Inv (s : EventLoop) : Prop where
  -- The kernel has the addresses that the table owns.
  registered : ∀ fd p, (∃ events, s.interest fd = some (p, events)) ↔ s.channels fd = some p
  table : ∀ fd p, s.channels fd = some p → ∃ ch, s.heap p = some ch ∧ ch.fd = fd
  dying_alive : ∀ p ∈ s.dying, s.heap p ≠ none
  batch_owned : ∀ event ∈ s.batch, s.Owned event.ptr
  pending_batch : ∀ event ∈ s.pending, event ∈ s.batch
  removed_dead : ∀ p, .removed p ∈ s.log → ∀ ch, s.heap p = some ch → ch.dead = true
  unused : ∀ p, s.fresh ≤ p → s.heap p = none ∧ .removed p ∉ s.log
  silent : SilentOnceRemoved s.log
  active : ∀ p, (∃ fd, s.channels fd = some p) ↔ Registered s.log p

theorem init_inv : init.Inv where
  registered := by simp [init]
  table := by simp [init]
  dying_alive := by simp [init]
  batch_owned := by simp [init]
  pending_batch := by simp [init, pending]
  removed_dead := by simp [init]
  unused := by simp [init]
  silent := by simp [SilentOnceRemoved, init]
  active := by simp [Registered, init]

variable {s t : EventLoop}

theorem Inv.alive (h : s.Inv) {p : ChannelPtr} (hp : s.Owned p) : s.heap p ≠ none := by
  obtain hp | ⟨fd, hfd⟩ := hp
  · exact h.dying_alive p hp
  · obtain ⟨ch, hch, -⟩ := h.table fd p hfd
    simp [hch]

/-- The kernel has no registration where the table has none. -/
theorem Inv.interest_none (h : s.Inv) (fd : Int) : s.interest fd = none ↔ s.channels fd = none := by
  constructor
  · intro hnone
    by_contra hne
    obtain ⟨p, hp⟩ := Option.ne_none_iff_exists'.1 hne
    obtain ⟨events, hevents⟩ := (h.registered fd p).2 hp
    rw [hnone] at hevents
    cases hevents
  · intro hnone
    by_contra hne
    obtain ⟨⟨p, events⟩, hp⟩ := Option.ne_none_iff_exists'.1 hne
    have hchannel := (h.registered fd p).1 ⟨events, hp⟩
    rw [hnone] at hchannel
    cases hchannel

/-- A channel that is there is not the next to be created. -/
theorem Inv.lt_fresh (h : s.Inv) {p : ChannelPtr} {ch : Channel} (hch : s.heap p = some ch) :
    p < s.fresh := by
  by_contra hle
  rw [(h.unused p (not_lt.1 hle)).1] at hch
  cases hch

/-- Without a channel there is no registration to take back. -/
theorem Inv.interest_update (h : s.Inv) {fd : Int} (hfd : s.channels fd = none) :
    Function.update s.interest fd none = s.interest := by
  rw [← (h.interest_none fd).2 hfd, Function.update_eq_self]

/-- A channel is in the table once. -/
theorem Inv.table_inj (h : s.Inv) {fd fd' : Int} {p : ChannelPtr} (hfd : s.channels fd = some p)
    (hfd' : s.channels fd' = some p) : fd = fd' := by
  obtain ⟨ch, hch, rfl⟩ := h.table fd p hfd
  obtain ⟨ch', hch', rfl⟩ := h.table fd' p hfd'
  rw [hch, Option.some.injEq] at hch'
  rw [hch']

/-! ## Calls -/

theorem create_inv (h : s.Inv) (ch : Channel) :
    Inv { s with heap := Function.update s.heap s.fresh (some ch), fresh := s.fresh + 1 } where
  registered := h.registered
  table := by
    intro fd p hp
    obtain ⟨ch', hch', hfd⟩ := h.table fd p hp
    have hne : p ≠ s.fresh := (h.lt_fresh hch').ne
    exact ⟨ch', by simp only [Function.update_of_ne hne]; exact hch', hfd⟩
  dying_alive := by
    intro p hp
    by_cases heq : p = s.fresh
    · simp [heq]
    · simp only [Function.update_of_ne heq]
      exact h.dying_alive p hp
  batch_owned := h.batch_owned
  pending_batch := h.pending_batch
  removed_dead := by
    intro p hp ch' hch'
    by_cases heq : p = s.fresh
    · -- Nothing has happened to the new channel yet.
      exact absurd (heq ▸ hp) (h.unused s.fresh le_rfl).2
    · simp only [Function.update_of_ne heq] at hch'
      exact h.removed_dead p hp ch' hch'
  unused := by
    intro p hp
    have hne : p ≠ s.fresh := by
      rintro rfl
      exact absurd hp (by simp)
    simp only [Function.update_of_ne hne]
    exact h.unused p (Nat.le_of_succ_le hp)
  silent := h.silent
  active := h.active

/-- What a successful `addChannel` does: the descriptor had no registration. -/
theorem addChannel_eq {p : ChannelPtr} (hadd : s.addChannel p = some t) :
    ∃ ch, s.heap p = some ch ∧ s.interest ch.fd = none ∧
      t = { s with
        interest := Function.update s.interest ch.fd (some (p, ch.events))
        channels := Function.update s.channels ch.fd (some p)
        log := s.log ++ [.added p] } := by
  unfold addChannel at hadd
  cases hch : s.heap p with
  | none => simp [hch] at hadd
  | some ch =>
      by_cases hfree : s.opened ch.fd = true ∧ s.interest ch.fd = none
      · simp only [hch, if_pos hfree, Option.some.injEq] at hadd
        exact ⟨ch, rfl, hfree.2, hadd.symm⟩
      · simp [hch, if_neg hfree] at hadd

theorem addChannel_inv (h : s.Inv) {p : ChannelPtr} (hadd : s.addChannel p = some t) : t.Inv := by
  obtain ⟨ch, hch, hfree, rfl⟩ := addChannel_eq hadd
  -- The kernel refuses a second registration of a descriptor.
  have hnone : s.channels ch.fd = none := (h.interest_none ch.fd).1 hfree
  -- No entry of the table is lost.
  have hkeep : ∀ fd q, s.channels fd = some q →
      Function.update s.channels ch.fd (some p) fd = some q := by
    intro fd q hq
    have hne : fd ≠ ch.fd := by
      rintro rfl
      rw [hnone] at hq
      cases hq
    simp only [Function.update_of_ne hne]
    exact hq
  refine ⟨?_, ?_, h.dying_alive, ?_, h.pending_batch, ?_, ?_, ?_, ?_⟩
  · intro fd q
    by_cases heq : fd = ch.fd
    · simp [heq]
    · simp only [Function.update_of_ne heq]
      exact h.registered fd q
  · intro fd q hq
    by_cases heq : fd = ch.fd
    · subst heq
      simp only [Function.update_self, Option.some.injEq] at hq
      exact ⟨ch, hq ▸ hch, rfl⟩
    · simp only [Function.update_of_ne heq] at hq
      exact h.table fd q hq
  · intro event hevent
    obtain hdying | ⟨fd, hfd⟩ := h.batch_owned event hevent
    · exact .inl hdying
    · exact .inr ⟨fd, hkeep fd _ hfd⟩
  · intro q hq
    exact h.removed_dead q (by simpa using hq)
  · intro q hq
    exact ⟨(h.unused q hq).1, by simpa using (h.unused q hq).2⟩
  · exact silent_call h.silent (by simp)
  · intro q
    rw [registered_added, ← h.active q]
    constructor
    · rintro ⟨fd, hfd⟩
      by_cases heq : fd = ch.fd
      · subst heq
        simp only [Function.update_self, Option.some.injEq] at hfd
        exact .inl hfd.symm
      · simp only [Function.update_of_ne heq] at hfd
        exact .inr ⟨fd, hfd⟩
    · rintro (rfl | ⟨fd, hfd⟩)
      · exact ⟨ch.fd, by simp⟩
      · exact ⟨fd, hkeep fd q hfd⟩

/-- A descriptor without a channel: nothing is removed. -/
theorem removeChannel_none (h : s.Inv) {fd : Int} (hfd : s.channels fd = none) :
    s.removeChannel fd = s := by
  simp [removeChannel, hfd, h.interest_update hfd]

theorem removeChannel_inv (h : s.Inv) (fd : Int) : (s.removeChannel fd).Inv := by
  cases hfd : s.channels fd with
  | none =>
      rw [removeChannel_none h hfd]
      exact h
  | some p =>
      obtain ⟨ch, hch, -⟩ := h.table fd p hfd
      have hremove : s.removeChannel fd = { s with
          interest := Function.update s.interest fd none
          heap := Function.update s.heap p (some { ch with dead := true })
          dying := s.dying ++ [p]
          channels := Function.update s.channels fd none
          log := s.log ++ [.removed p] } := by
        simp [removeChannel, hfd, hch]
      have hused := h.lt_fresh hch
      rw [hremove]
      refine ⟨?_, ?_, ?_, ?_, h.pending_batch, ?_, ?_, ?_, ?_⟩
      · intro fd' q
        by_cases heq : fd' = fd
        · simp [heq]
        · simp only [Function.update_of_ne heq]
          exact h.registered fd' q
      · intro fd' q hq
        by_cases heq : fd' = fd
        · simp [heq] at hq
        · simp only [Function.update_of_ne heq] at hq
          obtain ⟨ch', hch', hfd'⟩ := h.table fd' q hq
          have hne : q ≠ p := by
            rintro rfl
            exact heq (h.table_inj hq hfd)
          exact ⟨ch', by simp only [Function.update_of_ne hne]; exact hch', hfd'⟩
      · intro q hq
        by_cases heq : q = p
        · simp [heq]
        · simp only [Function.update_of_ne heq]
          rcases List.mem_append.1 hq with hq | hq
          · exact h.dying_alive q hq
          · exact absurd (List.mem_singleton.1 hq) heq
      · -- What leaves the table is dying.
        intro event hevent
        obtain hdying | ⟨fd', hfd'⟩ := h.batch_owned event hevent
        · exact .inl (List.mem_append_left _ hdying)
        · by_cases heq : fd' = fd
          · subst heq
            rw [hfd, Option.some.injEq] at hfd'
            exact .inl (List.mem_append_right _ (List.mem_singleton.2 hfd'.symm))
          · exact .inr ⟨fd', by simp only [Function.update_of_ne heq]; exact hfd'⟩
      · intro q hq ch' hch'
        by_cases heq : q = p
        · subst heq
          simp only [Function.update_self, Option.some.injEq] at hch'
          rw [← hch']
        · simp only [Function.update_of_ne heq] at hch'
          exact h.removed_dead q (by simpa [heq] using hq) ch' hch'
      · intro q hq
        have hne : q ≠ p := (hused.trans_le hq).ne'
        refine ⟨?_, by simpa [hne] using (h.unused q hq).2⟩
        simp only [Function.update_of_ne hne]
        exact (h.unused q hq).1
      · exact silent_call h.silent (by simp)
      · -- The channel was in the table for this descriptor alone.
        intro q
        rw [registered_removed, ← h.active q]
        constructor
        · rintro ⟨fd', hfd'⟩
          by_cases heq : fd' = fd
          · simp [heq] at hfd'
          · simp only [Function.update_of_ne heq] at hfd'
            refine ⟨?_, fd', hfd'⟩
            rintro rfl
            exact heq (h.table_inj hfd' hfd)
        · rintro ⟨hne, fd', hfd'⟩
          refine ⟨fd', ?_⟩
          have hfd_ne : fd' ≠ fd := by
            rintro rfl
            rw [hfd, Option.some.injEq] at hfd'
            exact hne hfd'.symm
          simp only [Function.update_of_ne hfd_ne]
          exact hfd'

theorem modifyChannel_inv (h : s.Inv) {p : ChannelPtr} {events : UInt32}
    (hregistered : ∃ fd, s.channels fd = some p) (hmodify : s.modifyChannel p events = some t) :
    t.Inv := by
  obtain ⟨fd, hfd⟩ := hregistered
  obtain ⟨ch, hch, rfl⟩ := h.table fd p hfd
  have hinterest : s.interest ch.fd ≠ none := by
    rw [Ne, h.interest_none, hfd]
    simp
  simp only [modifyChannel, hch, if_neg hinterest, Option.some.injEq] at hmodify
  subst hmodify
  -- Only masks change.
  have hheap : ∀ q ch', Function.update s.heap p (some { ch with events := events }) q = some ch' →
      ∃ ch₀, s.heap q = some ch₀ ∧ ch₀.fd = ch'.fd ∧ ch₀.dead = ch'.dead := by
    intro q ch' hq
    by_cases heq : q = p
    · subst heq
      simp only [Function.update_self, Option.some.injEq] at hq
      exact ⟨ch, hch, by rw [← hq], by rw [← hq]⟩
    · simp only [Function.update_of_ne heq] at hq
      exact ⟨ch', hq, rfl, rfl⟩
  have halive : ∀ q, s.heap q ≠ none →
      Function.update s.heap p (some { ch with events := events }) q ≠ none := by
    intro q hq
    by_cases heq : q = p
    · simp [heq]
    · rwa [Function.update_of_ne heq]
  refine ⟨?_, ?_, fun q hq => halive q (h.dying_alive q hq), h.batch_owned, h.pending_batch, ?_, ?_,
    h.silent, h.active⟩
  · intro fd' q
    by_cases heq : fd' = ch.fd
    · subst heq
      simp [hfd]
    · simp only [Function.update_of_ne heq]
      exact h.registered fd' q
  · intro fd' q hq
    obtain ⟨ch₀, hch₀, hfd'⟩ := h.table fd' q hq
    obtain ⟨ch', hch'⟩ := Option.ne_none_iff_exists'.1 (halive q (by simp [hch₀]))
    obtain ⟨ch₁, hch₁, hfd₁, -⟩ := hheap q ch' hch'
    rw [hch₀, Option.some.injEq] at hch₁
    exact ⟨ch', hch', by rw [← hfd₁, ← hch₁, hfd']⟩
  · intro q hq ch' hch'
    obtain ⟨ch₀, hch₀, -, hdead⟩ := hheap q ch' hch'
    rw [← hdead]
    exact h.removed_dead q hq ch₀ hch₀
  · intro q hq
    have hne : q ≠ p := ((h.lt_fresh hch).trans_le hq).ne'
    refine ⟨?_, (h.unused q hq).2⟩
    simp only [Function.update_of_ne hne]
    exact (h.unused q hq).1

/-! ## The rest of the world -/

/-- A channel that nobody owns is destroyed. -/
theorem destroy_inv (h : s.Inv) {p : ChannelPtr} (howned : ¬ s.Owned p) :
    Inv { s with heap := Function.update s.heap p none } where
  registered := h.registered
  table := by
    intro fd q hq
    have hne : q ≠ p := by
      rintro rfl
      exact howned (.inr ⟨fd, hq⟩)
    obtain ⟨ch, hch, hfd⟩ := h.table fd q hq
    exact ⟨ch, by simp only [Function.update_of_ne hne]; exact hch, hfd⟩
  dying_alive := by
    intro q hq
    have hne : q ≠ p := by
      rintro rfl
      exact howned (.inl hq)
    simp only [Function.update_of_ne hne]
    exact h.dying_alive q hq
  batch_owned := h.batch_owned
  pending_batch := h.pending_batch
  removed_dead := by
    intro q hq ch hch
    by_cases heq : q = p
    · simp [heq] at hch
    · simp only [Function.update_of_ne heq] at hch
      exact h.removed_dead q hq ch hch
  unused := by
    intro q hq
    refine ⟨?_, (h.unused q hq).2⟩
    by_cases heq : q = p
    · simp [heq]
    · simp only [Function.update_of_ne heq]
      exact (h.unused q hq).1
  silent := h.silent
  active := h.active

/-- A descriptor that no channel is registered for is closed. -/
theorem closeFd_inv (h : s.Inv) {fd : Int} (hfd : s.channels fd = none) :
    Inv { s with
      opened := Function.update s.opened fd false
      interest := Function.update s.interest fd none } := by
  rw [h.interest_update hfd]
  exact { h with }

/-! ## Steps of `loop()` -/

/-- A step inside a batch that leaves the log alone. -/
theorem Inv.move (h : s.Inv) {point : LoopPoint}
    (hpending : ∀ event ∈ pending { s with point := point }, event ∈ s.batch) :
    Inv { s with point := point } :=
  { h with pending_batch := hpending }

/-- A callback begins whose channel is not dead. -/
theorem Inv.invoke (h : s.Inv) {event : EpollEvent} {ch : Channel} {point : LoopPoint}
    {kind : Readiness} (hch : s.heap event.ptr = some ch) (halive : ch.dead = false)
    (hpending : ∀ event ∈ pending { s with point := point }, event ∈ s.batch) :
    Inv { s with point := point, log := s.log ++ [.invoked event.ptr kind] } := by
  have hremoved : LoopEvent.removed event.ptr ∉ s.log := by
    intro hmem
    rw [h.removed_dead _ hmem ch hch] at halive
    cases halive
  exact { h with
    pending_batch := hpending
    removed_dead := fun p hp => h.removed_dead p (by simpa using hp)
    unused := fun p hp => ⟨(h.unused p hp).1, by simpa using (h.unused p hp).2⟩
    silent := silent_invoked h.silent hremoved kind
    active := fun p => by rw [registered_invoked]; exact h.active p }

/-- Every step finds the channel it looks at. -/
theorem dispatch_inv (h : s.Inv) : ∃ t, s.dispatch = some t ∧ t.Inv := by
  have hbatch := h.pending_batch
  cases hpoint : s.point with
  | idle => exact ⟨s, by rw [dispatch, hpoint], h⟩
  | next rest =>
      simp only [pending, hpoint] at hbatch
      cases rest with
      | nil =>
          -- The batch is over; nobody looks at its channels any more.
          refine ⟨_, by rw [dispatch, hpoint], ?_⟩
          exact { h with
            dying_alive := by simp
            batch_owned := by simp
            pending_batch := by simp [pending] }
      | cons event rest =>
          have hrest : ∀ e ∈ rest, e ∈ s.batch := fun e he => hbatch e (List.mem_cons_of_mem _ he)
          obtain ⟨ch, hch⟩ := Option.ne_none_iff_exists'.1
            (h.alive (h.batch_owned event (hbatch event List.mem_cons_self)))
          by_cases hdead : ch.dead = true
          · -- An earlier callback of the batch has removed it.
            exact ⟨{ s with point := .next rest }, by simp [dispatch, hpoint, hch, hdead],
              h.move hrest⟩
          · by_cases hread : event.revents &&& EPOLLIN ≠ 0 ∧ ch.onRead = true
            · refine ⟨{ s with
                point := .reading event rest
                log := s.log ++ [.invoked event.ptr .read] }, ?_, ?_⟩
              · rw [dispatch, hpoint]
                simp only [hch, if_neg hdead]
                exact if_pos hread
              · exact h.invoke hch (by simpa using hdead) hbatch
            · refine ⟨{ s with point := .afterRead event rest }, ?_, h.move hbatch⟩
              rw [dispatch, hpoint]
              simp only [hch, if_neg hdead]
              exact if_neg hread
  | reading event rest =>
      simp only [pending, hpoint] at hbatch
      exact ⟨{ s with point := .afterRead event rest }, by rw [dispatch, hpoint], h.move hbatch⟩
  | afterRead event rest =>
      simp only [pending, hpoint] at hbatch
      have hrest : ∀ e ∈ rest, e ∈ s.batch := fun e he => hbatch e (List.mem_cons_of_mem _ he)
      obtain ⟨ch, hch⟩ := Option.ne_none_iff_exists'.1
        (h.alive (h.batch_owned event (hbatch event List.mem_cons_self)))
      by_cases hout : event.revents &&& EPOLLOUT = 0
      · exact ⟨{ s with point := .next rest }, by simp [dispatch, hpoint, hout], h.move hrest⟩
      · by_cases hwrite : ch.dead = false ∧ ch.onWrite = true
        · refine ⟨{ s with
            point := .writing event rest
            log := s.log ++ [.invoked event.ptr .write] }, ?_, ?_⟩
          · simp [dispatch, hpoint, hout, hch, hwrite]
          · exact h.invoke hch hwrite.1 hbatch
        · refine ⟨{ s with point := .next rest }, ?_, h.move hrest⟩
          rw [dispatch, hpoint]
          simp only [if_neg hout, hch]
          exact if_neg hwrite
  | writing event rest =>
      simp only [pending, hpoint] at hbatch
      exact ⟨{ s with point := .next rest }, by rw [dispatch, hpoint],
        h.move fun e he => hbatch e (List.mem_cons_of_mem _ he)⟩

/-! ## Runs -/

theorem Reachable.inv (h : Reachable s) : s.Inv := by
  induction h with
  | init => exact init_inv
  | create ch _ _ _ ih => exact create_inv ih ch
  | add p _ _ hadd ih => exact addChannel_inv ih hadd
  | remove fd _ _ ih => exact removeChannel_inv ih fd
  | modify p events _ _ hregistered hmodify ih => exact modifyChannel_inv ih hregistered hmodify
  | quit _ ih => exact { ih with }
  | throw _ _ ih =>
      exact { ih with
        batch_owned := by simp
        pending_batch := by simp [pending] }
  | openFd fd _ ih => exact { ih with }
  | closeFd fd _ hfd ih => exact closeFd_inv ih hfd
  | destroy p ch _ howned _ _ ih => exact destroy_inv ih howned
  | destroyFd p ch _ howned _ _ hfd ih => exact closeFd_inv (destroy_inv ih howned) hfd
  | @wait s batch _ _ _ hregistered ih =>
      refine { ih with
        batch_owned := ?_
        pending_batch := fun event hevent => hevent }
      -- What the kernel knows is in the table.
      intro event hevent
      obtain ⟨fd, events, hinterest⟩ := hregistered event hevent
      exact .inr ⟨fd, (ih.registered fd event.ptr).1 ⟨events, hinterest⟩⟩
  | dispatch _ hdispatch ih =>
      obtain ⟨t, ht, hinv⟩ := dispatch_inv ih
      rw [hdispatch, Option.some.injEq] at ht
      exact ht ▸ hinv

/-- A callback that is running belongs to an event of the batch. -/
theorem Inv.executing_batch (h : s.Inv) {p : ChannelPtr} (hp : s.executing = some p) :
    ∃ event ∈ s.batch, event.ptr = p := by
  have hbatch := h.pending_batch
  unfold executing at hp
  unfold pending at hbatch
  cases hpoint : s.point with
  | reading event rest =>
      simp only [hpoint, Option.some.injEq] at hp hbatch
      exact ⟨event, hbatch event List.mem_cons_self, hp⟩
  | writing event rest =>
      simp only [hpoint, Option.some.injEq] at hp hbatch
      exact ⟨event, hbatch event List.mem_cons_self, hp⟩
  | idle => simp [hpoint] at hp
  | next rest => simp [hpoint] at hp
  | afterRead event rest => simp [hpoint] at hp

/-- Behind the `on_read` of a channel that has been removed, `loop()` goes on with the next
event. -/
theorem Inv.no_write_once_removed (h : s.Inv) {event : EpollEvent} {rest : List EpollEvent}
    (hpoint : s.point = .afterRead event rest) (hremoved : .removed event.ptr ∈ s.log) :
    s.dispatch = some { s with point := .next rest } := by
  have hbatch := h.pending_batch
  simp only [pending, hpoint] at hbatch
  obtain ⟨ch, hch⟩ := Option.ne_none_iff_exists'.1
    (h.alive (h.batch_owned event (hbatch event List.mem_cons_self)))
  have hdead := h.removed_dead _ hremoved ch hch
  by_cases hout : event.revents &&& EPOLLOUT = 0
  · simp [dispatch, hpoint, hout]
  · simp [dispatch, hpoint, hout, hch, hdead]

/-- **Dispatch safety.** Whatever the callbacks do: behind a removal that has returned none of the
channel's callbacks begins; from `epoll_wait` to the end of the batch every channel of the batch is
owned by the loop and alive, the one whose callback is running among them, so that `loop()` never
uses one that is gone; a channel removed in its `on_read` gets no `on_write`; and the table has the
channels that were added and not removed since, which are also those the kernel knows. -/
theorem dispatch_safe (h : Reachable s) :
    SilentOnceRemoved s.log ∧
    (∀ event ∈ s.batch, s.Owned event.ptr ∧ s.heap event.ptr ≠ none) ∧
    (∀ p, s.executing = some p → s.Owned p ∧ s.heap p ≠ none) ∧
    s.dispatch ≠ none ∧
    (∀ event rest, s.point = .afterRead event rest → .removed event.ptr ∈ s.log →
      s.dispatch = some { s with point := .next rest }) ∧
    (∀ p, (∃ fd, s.channels fd = some p) ↔ Registered s.log p) ∧
    ∀ fd p, (∃ events, s.interest fd = some (p, events)) ↔ s.channels fd = some p := by
  have hinv := h.inv
  refine ⟨hinv.silent, ?_, ?_, ?_, ?_, hinv.active, hinv.registered⟩
  · intro event hevent
    have howned := hinv.batch_owned event hevent
    exact ⟨howned, hinv.alive howned⟩
  · intro p hp
    obtain ⟨event, hevent, rfl⟩ := hinv.executing_batch hp
    have howned := hinv.batch_owned event hevent
    exact ⟨howned, hinv.alive howned⟩
  · obtain ⟨t, hdispatch, -⟩ := dispatch_inv hinv
    rw [hdispatch]
    simp
  · intro event rest hpoint hremoved
    exact hinv.no_write_once_removed hpoint hremoved

/-- The channel of the serial line. -/
def serialChannel : Channel := ⟨5, EPOLLIN ||| EPOLLOUT, true, true, false, false⟩

/-- The serial channel's `on_read` has replaced its own channel by a new one for the same
descriptor, as a replacement of the serial line does. -/
def replaced : EventLoop where
  heap := Function.update
    (Function.update (Function.update (fun _ => none) 0 (some serialChannel)) 0
      (some { serialChannel with dead := true })) 1 (some serialChannel)
  fresh := 2
  opened := Function.update (fun _ => false) 5 true
  interest := Function.update (Function.update (Function.update (fun _ => none) 5
    (some (0, EPOLLIN ||| EPOLLOUT))) 5 none) 5 (some (1, EPOLLIN ||| EPOLLOUT))
  channels := Function.update (Function.update (Function.update (fun _ => none) 5 (some 0)) 5 none)
    5 (some 1)
  dying := [0]
  running := true
  point := .reading ⟨0, EPOLLIN ||| EPOLLOUT⟩ []
  batch := [⟨0, EPOLLIN ||| EPOLLOUT⟩]
  log := [.added 0, .invoked 0 .read, .removed 0, .added 1]

theorem replaced_reachable : Reachable replaced := by
  have hopened := Reachable.openFd 5 .init
  have hcreated := Reachable.create serialChannel hopened (.inl rfl) rfl
  have hadded : Reachable _ := .add 0 hcreated (.inl rfl) rfl
  have hwaited := Reachable.wait [⟨0, EPOLLIN ||| EPOLLOUT⟩] hadded rfl rfl (by
    intro event hevent
    rw [List.mem_singleton.1 hevent]
    exact ⟨5, EPOLLIN ||| EPOLLOUT, rfl⟩)
  have hreading : Reachable _ := .dispatch hwaited rfl
  have hcallable : ∀ s : EventLoop, s.point = .reading ⟨0, EPOLLIN ||| EPOLLOUT⟩ [] →
      s.callable := by
    intro s hs
    right
    simp [executing, hs]
  have hremoved := Reachable.remove 5 hreading (hcallable _ rfl)
  have hrecreated := Reachable.create serialChannel hremoved (hcallable _ rfl) rfl
  exact .add 1 hrecreated (hcallable _ rfl) rfl

theorem dispatch_safe_replaced :
    SilentOnceRemoved replaced.log ∧
    (∀ event ∈ replaced.batch, replaced.Owned event.ptr ∧ replaced.heap event.ptr ≠ none) ∧
    (∀ p, replaced.executing = some p → replaced.Owned p ∧ replaced.heap p ≠ none) ∧
    replaced.dispatch ≠ none ∧
    (∀ event rest, replaced.point = .afterRead event rest → .removed event.ptr ∈ replaced.log →
      replaced.dispatch = some { replaced with point := .next rest }) ∧
    (∀ p, (∃ fd, replaced.channels fd = some p) ↔ Registered replaced.log p) ∧
    ∀ fd p, (∃ events, replaced.interest fd = some (p, events)) ↔
      replaced.channels fd = some p :=
  dispatch_safe replaced_reachable

end EventLoop

end EdgeGateway
