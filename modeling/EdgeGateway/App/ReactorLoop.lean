import EdgeGateway.App.ReactorProgress
import EdgeGateway.Basic.LeadsTo

set_option autoImplicit false

/-! # Every command is answered in the end

The reactor's loop with the counter of its eventfd. Whoever puts a command into the queue notifies
the loop, and so do the timer and a downlink event that leaves commands behind. In an infinite run
with a steady clock, in which the timer goes on and readable descriptors are served, the core is told
about every command that ever came into the queue: whatever the node answers or does not, whatever
the port takes, and however often sessions and handshakes fail.
-/

namespace EdgeGateway

open GatewayApp CommandTracker

/-! ## The loop -/

/-- `signalled` is whether the eventfd is readable. -/
structure ReactorLoop where
  app : GatewayApp
  signalled : Bool

namespace ReactorLoop

/-- The commands that come in before the code looks whether the queue is empty. -/
def polled (app : GatewayApp) : GatewayApp := { app with owner := app.owner.poll }

/-- `onCommandTimerEvent` with its notification; `more` stands for those of other threads. -/
def timer (s : ReactorLoop) (more : Bool) : ReactorLoop :=
  let app := polled s.app.onCommandTimerEvent
  ⟨app, s.signalled || (app.owner.cmdQueue ≠ [] || more)⟩

/-- `onDownlinkEvent`: the counter is read, and raised again behind a full batch. -/
def downlink (s : ReactorLoop) (replacements : List Bool) (epoch : Int) (more : Bool) : ReactorLoop :=
  let app := polled (s.app.onDownlinkEvent false replacements epoch)
  let full := app.owner.popped.length = s.app.owner.popped.length + kDownlinkBatchSize
  ⟨app, (full && app.owner.cmdQueue ≠ []) || more⟩

/-- An event of the loop. The notifications behind frames and behind writes are among `more`. A loop
that stops is left. -/
inductive Step : ReactorLoop → AppEvent → ReactorLoop → Prop
  | timer (s : ReactorLoop) (more : Bool) : Step s .timer (s.timer more)
  | downlink (s : ReactorLoop) (replacements : List Bool) (epoch : Int) (more : Bool)
      (hsignalled : s.signalled = true) :
      Step s (.downlink false replacements epoch) (s.downlink replacements epoch more)
  | serial (s : ReactorLoop) (frames : List Frame) (more : Bool) :
      Step s (.serial frames) ⟨s.app.onSerialEvent frames, s.signalled || more⟩
  | writable (s : ReactorLoop) (turns : List WriteResult) (more : Bool) :
      Step s (.writable turns) ⟨s.app.onSerialWriteEvent turns, s.signalled || more⟩

def isDownlink : AppEvent → Prop
  | .downlink _ _ _ => True
  | _ => False

/-- From `first` on the serial link is not replaced any more. -/
def Unreplaced (event : Nat → AppEvent) (first : Nat) : Prop :=
  ∀ n replacements epoch, first ≤ n → event n = .downlink false replacements epoch →
    replacements = []

/-- An infinite run. The steady clock goes on, and so does the timer; a descriptor that is readable
is served; and in the end the serial link is not replaced any more. -/
structure FairRun (clock : Nat → TimePoint) (arrivals : Nat → List Downlink)
    (run : Nat → ReactorLoop) (event : Nat → AppEvent) : Prop where
  init : run 0 = ⟨GatewayApp.init clock arrivals, false⟩
  step : ∀ n, Step (run n) (event n) (run (n + 1))
  clock : ∀ time, ∃ i, ∀ j, i ≤ j → time ≤ clock j
  timer : ∀ n, ∃ m, n ≤ m ∧ event m = .timer
  served : ∀ n, (run n).signalled = true → ∃ m, n ≤ m ∧ isDownlink (event m)
  replaced : ∃ first, Unreplaced event first

/-! ## One event -/

variable {s s' : ReactorLoop} {event : AppEvent}

theorem polled_run {F : UInt8 → List UInt8 → Prop} {R : Prop} {s : Reactor} {app : GatewayApp}
    (h : Reactor.Run F R s app.owner) : Reactor.Run F R s (polled app).owner :=
  h.tail (.poll app.owner)

/-- An event is a run of the reactor's steps. -/
theorem Step.run (h : Step s event s') {R : Prop}
    (hR : ∀ replacements epoch, event = .downlink false replacements epoch → replacements = [] ∨ R) :
    Reactor.Run (fun _ _ => True) R s.app.owner s'.app.owner := by
  cases h with
  | timer => exact polled_run (follows_timer s.app).run
  | downlink replacements epoch =>
      rcases hR replacements epoch rfl with rfl | hR
      · exact polled_run (follows_downlink s.app false epoch).run
      · exact polled_run (run_downlink s.app false replacements epoch hR)
  | serial frames => exact (follows_serial frames s.app fun _ _ _ => trivial).run
  | writable turns => exact (follows_writable s.app turns).run

theorem Step.balanced (h : Step s event s') (hs : s.app.owner.Balanced) : s'.app.owner.Balanced := by
  cases h with
  | timer => exact (balanced_timer hs).poll
  | downlink replacements epoch => exact (balanced_downlink hs false replacements epoch).poll
  | serial frames => exact balanced_serial hs frames
  | writable turns => exact balanced_writable hs turns

/-- A notification stays until it is served. -/
theorem Step.signalled (h : Step s event s') (hs : s.signalled = true) :
    s'.signalled = true ∨ isDownlink event := by
  cases h with
  | downlink => exact .inr trivial
  | _ =>
      left
      exact Bool.or_eq_true_iff.mpr (.inl hs)

/-- The timer notifies when commands wait. -/
theorem timer_signals (more : Bool) (h : (s.timer more).app.owner.cmdQueue ≠ []) :
    (s.timer more).signalled = true := by
  show (s.signalled || (decide ((s.timer more).app.owner.cmdQueue ≠ []) || more)) = true
  rw [decide_eq_true h]
  simp

/-- What a timer event does is what its tick does, and then further steps. -/
theorem timer_run {F : UInt8 → List UInt8 → Prop} {R : Prop} (s : ReactorLoop) (more : Bool) :
    Reactor.Run F R s.app.ticked.owner (s.timer more).app.owner :=
  polled_run (follows_tick s.app).run

/-- What was popped stays so. -/
theorem submit_popped (app : GatewayApp) (d : Downlink) :
    app.owner.popped <+: (submitDownlink app d).owner.popped := by
  unfold submitDownlink now
  dsimp only
  cases hsend : (app.owner.now.2.accept d app.owner.now.1).2 with
  | none => exact List.prefix_refl _
  | some send =>
      let owner := (app.owner.now.2.accept d app.owner.now.1).1
      let booked : GatewayApp :=
        { app with owner := { owner with requests := owner.requests.emplace send.seq d.id } }
      have hlog : .send send ∈ booked.owner.log := by
        show .send send ∈ (app.owner.now.2.accept d app.owner.now.1).1.log
        rw [Reactor.accept_log hsend]
        simp
      have hqueued := follows_queue (F := fun _ _ => True) (R := True) send booked hlog
      exact hqueued.run.onward.popped

/-- The loop over the queue pops a command when the tracker takes or rejects one. -/
theorem loop_pops (n : Nat) (app : GatewayApp) (hs : app.owner.tracker.Sound)
    (hstage : app.owner.tracker.stage = 0) (hwait : app.owner.cmdQueue ≠ []) :
    app.owner.popped.length < (downlinkLoop (n + 1) app).owner.popped.length := by
  have hpolled := (Reactor.exists_tryPop hwait).1
  obtain ⟨-, d, owner, hpop⟩ := Reactor.exists_tryPop hpolled
  have htracker := Reactor.poll_tracker app.owner
  have hmore : app.owner.popped.length < owner.popped.length :=
    Nat.lt_of_le_of_lt (Reactor.poll_onward app.owner).popped.length_le
      (Reactor.tryPop_popped hpop)
  -- the rounds that follow only pop more
  have hrest : ∀ next : GatewayApp, owner.popped <+: next.owner.popped →
      app.owner.popped.length < (downlinkLoop n next).owner.popped.length := fun next hnext =>
    Nat.lt_of_lt_of_le hmore (hnext.trans
      (Reactor.Run.onward (F := fun _ _ => True) (R := True) (follows_loop n next).run).popped).length_le
  unfold downlinkLoop
  dsimp only
  rw [if_neg hpolled, htracker, hpop]
  rcases hs.stage_zero hstage with hfailed | ⟨hready, hcan⟩
  · rw [if_pos hfailed]
    exact hrest _ (List.prefix_refl _)
  · rw [if_neg (by rw [hready]; decide), if_neg (by rw [hcan]; decide)]
    exact hrest _ (submit_popped { app with owner := owner } d)

theorem Step.of_timer (h : Step s .timer s') : ∃ more, s' = s.timer more := by
  cases h with
  | timer more => exact ⟨more, rfl⟩

theorem Step.of_downlink (h : Step s event s') (hdownlink : isDownlink event) :
    ∃ replacements epoch more, event = .downlink false replacements epoch ∧
      s' = s.downlink replacements epoch more := by
  cases h with
  | downlink replacements epoch more => exact ⟨replacements, epoch, more, rfl, rfl⟩
  | _ => exact hdownlink.elim

/-- Every timer event reads the clock. -/
theorem timer_clock (s : ReactorLoop) (more : Bool) :
    ∃ k, (s.timer more).app.owner.clock = fun i => s.app.owner.clock (i + (k + 1)) := by
  let r := s.app.owner.tracker.tick (s.app.owner.clock 0)
  have hdelivered := Reactor.deliver_onward r.2.finished (s.app.owner.now.2.advance r)
  have hrest := (timer_run (F := fun _ _ => True) (R := True) s more).onward
  exact (hdelivered.trans hrest).clock

/-- A downlink event pops a command when the tracker takes or rejects one. -/
theorem downlink_pops (s : ReactorLoop) (epoch : Int) (more : Bool)
    (hs : s.app.owner.tracker.Sound) (hstage : s.app.owner.tracker.stage = 0)
    (hwait : s.app.owner.cmdQueue ≠ []) :
    s.app.owner.popped.length < (s.downlink [] epoch more).app.owner.popped.length := by
  have htracker : (polled s.app).owner.tracker = s.app.owner.tracker :=
    Reactor.poll_tracker s.app.owner
  have hfirst : s.app.startFirst epoch = polled s.app := by
    unfold startFirst
    refine if_neg fun h => ?_
    rw [stage_closed (htracker ▸ h.2)] at hstage
    cases hstage
  have hpopped := loop_pops 31 (polled s.app) (htracker ▸ hs) (htracker ▸ hstage)
    (Reactor.exists_tryPop hwait).1
  have hbefore := (Reactor.poll_onward s.app.owner).popped.length_le
  have hafter : Reactor.Run (fun _ _ => True) True
      (downlinkLoop kDownlinkBatchSize (polled s.app)).owner (s.downlink [] epoch more).app.owner := by
    have hupdated := follows_update (F := fun _ _ => True) (R := True)
      (downlinkLoop kDownlinkBatchSize (s.app.startFirst epoch))
    rw [hfirst] at hupdated
    refine polled_run ?_
    show Reactor.Run _ _ _ (updateSerialWriteInterest
      (downlinkLoop kDownlinkBatchSize (s.app.startFirst epoch))).owner
    rw [hfirst]
    exact hupdated.run
  calc
    s.app.owner.popped.length ≤ (polled s.app).owner.popped.length := hbefore
    _ < (downlinkLoop kDownlinkBatchSize (polled s.app)).owner.popped.length := hpopped
    _ ≤ _ := hafter.onward.popped.length_le

/-! ## A fair run -/

namespace FairRun

variable {clock : Nat → TimePoint} {arrivals : Nat → List Downlink} {run : Nat → ReactorLoop}
  {event : Nat → AppEvent}

theorem onward (h : FairRun clock arrivals run event) {n m : Nat} (hnm : n ≤ m) :
    (run n).app.owner.Onward (run m).app.owner := by
  induction m, hnm using Nat.le_induction with
  | base => exact .refl _
  | succ m _ ih => exact ih.trans ((h.step m).run (R := True) fun _ _ _ => .inr trivial).onward

theorem sound (h : FairRun clock arrivals run event) (n : Nat) :
    (run n).app.owner.tracker.Sound := by
  induction n with
  | zero =>
      rw [h.init]
      exact sound_new
  | succ n ih => exact Reactor.Run.sound ((h.step n).run (R := True) fun _ _ _ => .inr trivial) ih

theorem balanced (h : FairRun clock arrivals run event) (n : Nat) :
    (run n).app.owner.Balanced := by
  induction n with
  | zero =>
      rw [h.init]
      exact balanced_run clock arrivals []
  | succ n ih => exact (h.step n).balanced ih

theorem clock_read (h : FairRun clock arrivals run event) (count n : Nat) :
    ∃ m k, n ≤ m ∧ count ≤ k ∧ (run m).app.owner.clock = fun i => clock (i + k) := by
  induction count with
  | zero =>
      obtain ⟨k, hk⟩ := (h.onward (Nat.zero_le n)).clock
      rw [h.init] at hk
      exact ⟨n, k, Nat.le_refl n, Nat.zero_le k, hk⟩
  | succ count ih =>
      obtain ⟨m, k, hnm, hcount, hclock⟩ := ih
      obtain ⟨m', hmm', htimer⟩ := h.timer m
      obtain ⟨l, hl⟩ := (h.onward hmm').clock
      obtain ⟨more, hnext⟩ := Step.of_timer (htimer ▸ h.step m')
      obtain ⟨j, hj⟩ := timer_clock (run m') more
      refine ⟨m' + 1, j + 1 + l + k, by omega, by omega, ?_⟩
      rw [hnext, hj, hl, hclock]
      funext i
      exact congrArg clock (by omega)

/-- Timer events come as late as one likes. -/
theorem late_timer (h : FairRun clock arrivals run event) (time : TimePoint) (n : Nat) :
    ∃ m, n ≤ m ∧ event m = .timer ∧ time ≤ (run m).app.owner.clock 0 := by
  obtain ⟨i, hlate⟩ := h.clock time
  obtain ⟨m, k, hnm, hik, hclock⟩ := h.clock_read i n
  obtain ⟨m', hmm', htimer⟩ := h.timer m
  obtain ⟨l, hl⟩ := (h.onward hmm').clock
  refine ⟨m', Nat.le_trans hnm hmm', htimer, ?_⟩
  rw [hl, hclock]
  exact hlate _ (by omega)

/-! ## Requests -/

/-- A request that is booked is told in the end. -/
theorem request_told (h : FairRun clock arrivals run event) {first : Nat}
    (hfirst : Unreplaced event first) (seq : UInt8) (id : RequestId) (queuedAt : TimePoint) :
    LeadsTo (fun n => first ≤ n ∧ (run n).app.owner.Waits seq id queuedAt)
      fun n => (run n).app.owner.Told id := by
  apply LeadsTo.ensures
    (H := fun n => event n = .timer ∧
      queuedAt + Ms EDGE_SR_RESULT_TIMEOUT_MS ≤ (run n).app.owner.clock 0)
  · rintro n ⟨hle, hwaits⟩
    have hrun := (h.step n).run (R := False) fun replacements epoch heq =>
      .inl (hfirst n replacements epoch hle heq)
    rcases Reactor.Run.waits (h.sound n) hrun hwaits with hkept | htold
    · exact .inl ⟨Nat.le_succ_of_le hle, hkept⟩
    · exact .inr htold
  · -- the tick completes the command, and the completion is delivered
    rintro n ⟨hle, hwaits⟩ ⟨htimer, hlate⟩
    obtain ⟨more, hnext⟩ := Step.of_timer (htimer ▸ h.step n)
    obtain ⟨e, hentry, rfl⟩ := hwaits.entry
    obtain ⟨completion, hfinished, hseq⟩ := tick_completes (h.sound n).window hentry
      (le_sub_iff_add_le'.mpr hlate)
    have hticked : (run n).app.ticked.owner.Told id := by
      rcases Reactor.deliver_told _ (Reactor.advance (run n).app.owner.now.2 _) hwaits.booked with
        htold | ⟨-, hnone⟩
      · exact htold
      · exact absurd hseq (hnone completion hfinished)
    rw [hnext]
    exact hticked.onward (timer_run (F := fun _ _ => True) (R := True) (run n) more).onward
  · intro n _
    obtain ⟨m, hnm, hlate⟩ := h.late_timer (queuedAt + Ms EDGE_SR_RESULT_TIMEOUT_MS) n
    exact ⟨m, hnm, .inl hlate⟩

/-! ## Commands in the queue -/

section Queue

variable {first popped : Nat}

/-- Commands wait, `popped` were popped so far, and the link is not replaced any more. -/
def Waiting (run : Nat → ReactorLoop) (first popped n : Nat) : Prop :=
  first ≤ n ∧ (run n).app.owner.popped.length = popped ∧ (run n).app.owner.cmdQueue ≠ []

def Popped (run : Nat → ReactorLoop) (popped n : Nat) : Prop :=
  popped < (run n).app.owner.popped.length

theorem waiting_kept (h : FairRun clock arrivals run event) (n : Nat)
    (hn : Waiting run first popped n) :
    Waiting run first popped (n + 1) ∨ Popped run popped (n + 1) := by
  obtain ⟨hle, hpopped, hqueue⟩ := hn
  have hstep := h.onward (Nat.le_add_right n 1)
  have hgrown := hstep.popped.length_le
  by_cases hsame : (run (n + 1)).app.owner.popped.length = popped
  · refine .inl ⟨Nat.le_succ_of_le hle, hsame, ?_⟩
    have hline := hstep.line.length_le
    have hpos := List.length_pos_of_ne_nil hqueue
    rw [List.length_append, List.length_append] at hline
    exact List.ne_nil_of_length_pos (by omega)
  · exact .inr (by unfold Popped; omega)

/-- While commands wait, the queue is served. -/
theorem waiting_served (h : FairRun clock arrivals run event) :
    LeadsTo (Waiting run first popped)
      fun m => (Waiting run first popped m ∧ isDownlink (event m)) ∨ Popped run popped m := by
  intro n hn
  have hkeep : ∀ n, Waiting run first popped n →
      Waiting run first popped (n + 1) ∨ Popped run popped (n + 1) := h.waiting_kept
  obtain ⟨m, hnm, htimer⟩ := h.timer n
  rcases LeadsTo.kept hkeep hn (Nat.le_succ_of_le hnm) with hwaiting | ⟨k, hnk, hk⟩
  · -- the timer has notified the loop
    obtain ⟨more, hnext⟩ := Step.of_timer (htimer ▸ h.step m)
    have hsignalled : (run (m + 1)).signalled = true := by
      have hqueue := hwaiting.2.2
      rw [hnext] at hqueue ⊢
      exact timer_signals more hqueue
    obtain ⟨m', hmm', hdownlink⟩ := h.served (m + 1) hsignalled
    rcases LeadsTo.kept hkeep hwaiting hmm' with hwaiting' | ⟨k, hmk, hk⟩
    · exact ⟨m', by omega, .inl ⟨hwaiting', hdownlink⟩⟩
    · exact ⟨k, by omega, .inr hk⟩
  · exact ⟨k, hnk, .inr hk⟩

/-- The stage is lower, or a command was popped. -/
def Nearer (run : Nat → ReactorLoop) (first popped stage n : Nat) : Prop :=
  Popped run popped n ∨
    Waiting run first popped n ∧ (run n).app.owner.tracker.stage < stage

/-- At a stage with `X`, which is kept as long as the stage is, a helpful event leads nearer. -/
theorem stage_leads (h : FairRun clock arrivals run event)
    (hfirst : Unreplaced event first) (stage : Nat) (X : CommandTracker → Prop)
    (hX : ∀ t t', Reactor.Idle t t' → t.stage = stage → t'.stage = stage → X t → X t')
    (H : Nat → Prop)
    (hhelp : ∀ n, Waiting run first popped n → (run n).app.owner.tracker.stage = stage →
      X (run n).app.owner.tracker → H n → Nearer run first popped stage (n + 1))
    (hfair : LeadsTo (Waiting run first popped) fun n => H n ∨ Popped run popped n) :
    LeadsTo (fun n => Waiting run first popped n ∧ (run n).app.owner.tracker.stage = stage ∧
      X (run n).app.owner.tracker) (Nearer run first popped stage) := by
  apply LeadsTo.ensures (H := H)
  · rintro n ⟨hwaiting, hstage, hx⟩
    rcases h.waiting_kept n hwaiting with hwaiting' | hpopped
    · have hrun := (h.step n).run (R := False) fun replacements epoch heq =>
        .inl (hfirst n replacements epoch hwaiting.1 heq)
      have hidle := Reactor.Run.idle (h.sound n) hrun (hwaiting'.2.1.trans hwaiting.2.1.symm)
      rcases Nat.lt_or_ge (run (n + 1)).app.owner.tracker.stage stage with hlt | hge
      · exact .inr (.inr ⟨hwaiting', hlt⟩)
      · have hsame : (run (n + 1)).app.owner.tracker.stage = stage :=
          Nat.le_antisymm (hstage ▸ hidle.stage) hge
        exact .inl ⟨hwaiting', hsame, hX _ _ hidle hstage hsame hx⟩
    · exact .inr (.inl hpopped)
  · rintro n ⟨hwaiting, hstage, hx⟩ hhelpful
    exact hhelp n hwaiting hstage hx hhelpful
  · rintro n ⟨hwaiting, -⟩
    obtain ⟨m, hnm, hm⟩ := hfair n hwaiting
    exact ⟨m, hnm, hm.imp id .inl⟩

/-- A part of the event that ends with `s'` and begins with a lower stage leads nearer. -/
theorem nearer_of_run (h : FairRun clock arrivals run event) {n stage : Nat} {u : Reactor}
    (hwaiting : Waiting run first popped n)
    (hbefore : (run n).app.owner.popped.length ≤ u.popped.length)
    (hrun : Reactor.Run (fun _ _ => True) False u (run (n + 1)).app.owner) (hu : u.tracker.Sound)
    (hstage : u.tracker.stage < stage) : Nearer run first popped stage (n + 1) := by
  rcases h.waiting_kept n hwaiting with hwaiting' | hpopped
  · have hafter := hrun.onward.popped.length_le
    have hsame : (run (n + 1)).app.owner.popped.length = u.popped.length := by
      have := hwaiting.2.1
      have := hwaiting'.2.1
      omega
    exact .inr ⟨hwaiting', Nat.lt_of_le_of_lt (Reactor.Run.idle hu hrun hsame).stage hstage⟩
  · exact .inl hpopped

/-- A tick that leaves a lower stage leads nearer. -/
theorem nearer_of_tick (h : FairRun clock arrivals run event) {n stage : Nat}
    (hwaiting : Waiting run first popped n) (htimer : event n = .timer)
    (hstage : ((run n).app.owner.tracker.tick ((run n).app.owner.clock 0)).1.stage < stage) :
    Nearer run first popped stage (n + 1) := by
  obtain ⟨more, hnext⟩ := Step.of_timer (htimer ▸ h.step n)
  have hticked := (follows_ticked (F := fun _ _ => True) (R := False) (run n).app).run
  have htracker : (run n).app.ticked.owner.tracker =
      ((run n).app.owner.tracker.tick ((run n).app.owner.clock 0)).1 :=
    (Reactor.deliver_all _ _).1
  refine h.nearer_of_run hwaiting hticked.onward.popped.length_le ?_
    (Reactor.Run.sound hticked (h.sound n)) (htracker ▸ hstage)
  rw [hnext]
  exact timer_run (run n) more

/-- Ages have a bound. -/
theorem exists_bound (entries : KeyMap UInt8 Entry) :
    ∃ bound : TimePoint, ∀ seq e, entries.find? seq = some e → e.queuedAt ≤ bound := by
  have hlist : ∀ l : List (UInt8 × Entry), ∃ bound : TimePoint, ∀ x ∈ l, x.2.queuedAt ≤ bound := by
    intro l
    induction l with
    | nil => exact ⟨0, fun _ h => by cases h⟩
    | cons x l ih =>
        obtain ⟨bound, hbound⟩ := ih
        refine ⟨max x.2.queuedAt bound, List.forall_mem_cons.mpr ⟨le_max_left _ _, fun y hy => ?_⟩⟩
        exact le_trans (hbound y hy) (le_max_right _ _)
  obtain ⟨bound, hbound⟩ := hlist entries.toList
  exact ⟨bound, fun seq e h => hbound (seq, e) (KeyMap.mem_toList.mpr h)⟩

/-- The first command starts the handshake. -/
theorem nearer_of_start (h : FairRun clock arrivals run event) {n : Nat} {epoch : Int} {more : Bool}
    (hwaiting : Waiting run first popped n)
    (hclosed : (run n).app.owner.tracker.state = .closed)
    (hnext : run (n + 1) = (run n).downlink [] epoch more) :
    Nearer run first popped 3 (n + 1) := by
  have hpolled := (Reactor.exists_tryPop hwaiting.2.2).1
  obtain ⟨hto, hfrom⟩ :=
    follows_start (F := fun _ _ => True) (R := False) epoch hpolled hclosed
  have hstage : ((run n).app.started epoch).owner.tracker.stage < 3 := by
    have htracker : ((run n).app.started epoch).owner.tracker = _ := (Reactor.deliver_all _ _).1
    rw [htracker]
    exact Nat.lt_of_le_of_lt (start_stage _ _) (by decide)
  refine h.nearer_of_run hwaiting hto.run.onward.popped.length_le ?_
    (Reactor.Run.sound hto.run (h.sound n)) hstage
  rw [hnext]
  exact polled_run ((hfrom.trans (follows_loop _ _)).trans (follows_update _)).run

/-- From every stage it goes nearer. -/
theorem stage_goes (h : FairRun clock arrivals run event)
    (hfirst : Unreplaced event first) (stage : Nat) :
    LeadsTo (fun n => Waiting run first popped n ∧ (run n).app.owner.tracker.stage = stage)
      (Nearer run first popped stage) := by
  have hserved : LeadsTo (Waiting run first popped)
      fun m => isDownlink (event m) ∨ Popped run popped m := by
    intro n hn
    obtain ⟨m, hnm, hm⟩ := h.waiting_served n hn
    exact ⟨m, hnm, hm.imp And.right id⟩
  have hlate : ∀ time, LeadsTo (Waiting run first popped) fun m =>
      (event m = .timer ∧ time ≤ (run m).app.owner.clock 0) ∨ Popped run popped m := by
    intro time n _
    obtain ⟨m, hnm, hm⟩ := h.late_timer time n
    exact ⟨m, hnm, .inl hm⟩
  rintro n ⟨hwaiting, hstage⟩
  have hle := stage_le_three (run n).app.owner.tracker
  have hstages : stage = 0 ∨ stage = 1 ∨ stage = 2 ∨ stage = 3 := by omega
  rcases hstages with rfl | rfl | rfl | rfl
  · -- a downlink event pops the command
    refine h.stage_leads hfirst 0 (fun _ => True) (fun _ _ _ _ _ _ => trivial) _ ?_ hserved n
      ⟨hwaiting, hstage, trivial⟩
    intro n hwaiting hstage _ hdownlink
    obtain ⟨replacements, epoch, more, heq, hnext⟩ := (h.step n).of_downlink hdownlink
    obtain rfl := hfirst n replacements epoch hwaiting.1 heq
    left
    unfold Popped
    rw [hnext, ← hwaiting.2.1]
    exact downlink_pops (run n) epoch more (h.sound n) hstage hwaiting.2.2
  · -- the handshake has run out of time
    let openingAt := (run n).app.owner.tracker.openingAt
    refine h.stage_leads hfirst 1 (fun t => t.openingAt = openingAt) ?_ _ ?_
      (hlate (openingAt + Ms EDGE_COMMAND_LIFETIME_MS)) n ⟨hwaiting, hstage, rfl⟩
    · intro t t' hidle ht ht' hsame
      exact (hidle.openingAt (state_of_stage_one ht) (state_of_stage_one ht')).trans hsame
    · rintro n hwaiting hstage hsame ⟨htimer, hlate⟩
      refine h.nearer_of_tick hwaiting htimer ?_
      rw [tick_stage_one hstage (hsame ▸ le_sub_iff_add_le'.mpr hlate)]
      exact Nat.one_pos
  · -- the oldest command has run out of time
    obtain ⟨bound, hbound⟩ := exists_bound (run n).app.owner.tracker.entries
    refine h.stage_leads hfirst 2
      (fun t => ∀ seq e, t.entries.find? seq = some e → e.queuedAt ≤ bound) ?_ _ ?_
      (hlate (bound + Ms EDGE_SR_RESULT_TIMEOUT_MS)) n ⟨hwaiting, hstage, hbound⟩
    · intro t t' hidle _ _ hold seq e' he'
      obtain ⟨e, he, heq⟩ := hidle.queuedAt seq e' he'
      exact heq ▸ hold seq e he
    · rintro n hwaiting hstage hold ⟨htimer, hlate⟩
      exact h.nearer_of_tick hwaiting htimer
        (tick_stage_two hstage (h.sound n).window hold (le_sub_iff_add_le'.mpr hlate))
  · -- a downlink event starts the first session
    refine h.stage_leads hfirst 3 (fun _ => True) (fun _ _ _ _ _ _ => trivial) _ ?_ hserved n
      ⟨hwaiting, hstage, trivial⟩
    intro n hwaiting hstage _ hdownlink
    obtain ⟨replacements, epoch, more, heq, hnext⟩ := (h.step n).of_downlink hdownlink
    obtain rfl := hfirst n replacements epoch hwaiting.1 heq
    exact h.nearer_of_start hwaiting (state_of_stage_three hstage) hnext

/-- Commands that wait are popped in the end. -/
theorem waiting_popped (h : FairRun clock arrivals run event)
    (hfirst : Unreplaced event first) : LeadsTo (Waiting run first popped) (Popped run popped) :=
  .descend (fun n => (run n).app.owner.tracker.stage) fun stage => h.stage_goes hfirst stage

/-- A place in the line is popped in the end. -/
theorem place_popped (h : FairRun clock arrivals run event)
    (hfirst : Unreplaced event first) (place : Nat) :
    LeadsTo (fun n => first ≤ n ∧
      place < ((run n).app.owner.popped ++ (run n).app.owner.cmdQueue).length)
      (Popped run place) := by
  apply LeadsTo.descend fun n => place + 1 - (run n).app.owner.popped.length
  rintro left n ⟨⟨hle, hplace⟩, hleft⟩
  by_cases hdone : Popped run place n
  · exact ⟨n, Nat.le_refl n, .inl hdone⟩
  · unfold Popped at hdone
    have hqueue : (run n).app.owner.cmdQueue ≠ [] := by
      intro hempty
      rw [hempty, List.append_nil] at hplace
      exact hdone hplace
    obtain ⟨m, hnm, hpopped⟩ := h.waiting_popped hfirst n ⟨hle, rfl, hqueue⟩
    have hline := (h.onward hnm).line.length_le
    unfold Popped at hpopped
    exact ⟨m, hnm, .inr ⟨⟨Nat.le_trans hle hnm, Nat.lt_of_lt_of_le hplace hline⟩, by omega⟩⟩

end Queue

/-- What was popped is told, or it is booked and waits. -/
theorem popped_told (h : FairRun clock arrivals run event) {n : Nat} {d : Downlink}
    (hd : d ∈ (run n).app.owner.popped) :
    (∃ call ∈ (run n).app.owner.calls, call.id = d.id) ∨
      ∃ seq queuedAt, (run n).app.owner.Waits seq d.id queuedAt := by
  have hbooks := h.balanced n
  have hcounted := hbooks.counted
  rw [List.append_nil] at hcounted
  rcases List.mem_append.mp (hcounted.subset (List.mem_map_of_mem hd)) with hcall | hrequest
  · obtain ⟨call, hmem, hid⟩ := List.mem_map.mp hcall
    exact .inl ⟨call, hmem, hid⟩
  · obtain ⟨request, hmem, hid⟩ := List.mem_map.mp hrequest
    have hbooked : (run n).app.owner.requests.find? request.1 = some d.id :=
      hid ▸ KeyMap.mem_toList.mp hmem
    -- the book has numbers of commands in flight only
    obtain ⟨k, hk, hseq, -⟩ := hbooks.ledger.owner request.1 d.id hbooked
    obtain ⟨entry, hentry, rfl⟩ := List.mem_map.mp hk
    have hnumber : entry.1 = request.1 := hseq
    refine .inr ⟨request.1, entry.2.queuedAt, hbooked, entry.2, ?_, rfl⟩
    exact hnumber ▸ KeyMap.mem_toList.mp hentry

end FairRun

/-- **Every command is answered in the end, and never twice.** Whatever came into the queue, the core
is told about it in the end; and at no time is it told about a request more often than this was
popped. -/
theorem commands_answered {clock : Nat → TimePoint} {arrivals : Nat → List Downlink}
    {run : Nat → ReactorLoop} {event : Nat → AppEvent} (h : FairRun clock arrivals run event) :
    (∀ n, ∀ d ∈ (run n).app.owner.popped ++ (run n).app.owner.cmdQueue,
      ∃ m, n ≤ m ∧ ∃ call ∈ (run m).app.owner.calls, call.id = d.id) ∧
    ∀ n id, ((run n).app.owner.calls.map CoreCall.id).count id ≤
      ((run n).app.owner.popped.map Downlink.id).count id := by
  constructor
  · intro n d hd
    obtain ⟨first, hfirst⟩ := h.replaced
    have hline := h.onward (Nat.le_max_left n first)
    obtain ⟨place, hplace, hat⟩ := List.getElem_of_mem (hline.line.subset hd)
    obtain ⟨m, hnm, hpopped⟩ := h.place_popped hfirst place _ ⟨Nat.le_max_right n first, hplace⟩
    -- the place is still that of the command
    have hmem : d ∈ (run m).app.owner.popped := by
      have hsame := (h.onward hnm).line.getElem hplace
      rw [hat, List.getElem_append_left hpopped] at hsame
      rw [hsame]
      exact List.getElem_mem hpopped
    rcases h.popped_told hmem with htold | ⟨seq, queuedAt, hwaits⟩
    · exact ⟨m, by omega, htold⟩
    · obtain ⟨m', hmm', completion, hcall⟩ :=
        h.request_told hfirst seq d.id queuedAt m ⟨by omega, hwaits⟩
      exact ⟨m', by omega, _, hcall, rfl⟩
  · intro n id
    have hcounted := (h.balanced n).counted.count_eq id
    rw [List.append_nil, List.count_append] at hcounted
    omega

/-! ## A run -/

/-- A run in which timer and downlink events take turns, with one command and nothing from the
node. -/
def alternating : Nat → ReactorLoop
  | 0 => ⟨GatewayApp.init (fun n => n * 1000000000)
      (fun n => if n = 0 then [⟨7, ⟨EDGE_TYPE_QUERY_LIGHT, []⟩⟩] else []), false⟩
  | n + 1 => if n % 2 = 0 then (alternating n).timer true else (alternating n).downlink [] 1 false

def alternatingEvent (n : Nat) : AppEvent := if n % 2 = 0 then .timer else .downlink false [] 1

theorem fairRun_alternating : FairRun (fun n => n * 1000000000)
    (fun n => if n = 0 then [⟨7, ⟨EDGE_TYPE_QUERY_LIGHT, []⟩⟩] else []) alternating
    alternatingEvent where
  init := rfl
  step := by
    intro n
    unfold alternatingEvent
    rw [alternating]
    split_ifs with heven
    · exact .timer _ true
    · refine .downlink _ [] 1 false ?_
      obtain ⟨m, rfl⟩ : ∃ m, n = m + 1 := ⟨n - 1, by omega⟩
      rw [alternating, if_pos (by omega)]
      show (_ || (_ || true)) = true
      rw [Bool.or_true, Bool.or_true]
  clock := by
    intro (time : Int)
    refine ⟨time.toNat, fun j hj => ?_⟩
    show time ≤ (j : Int) * 1000000000
    omega
  timer := fun n => ⟨2 * n, by omega, if_pos (by omega)⟩
  served := by
    intro n _
    refine ⟨2 * n + 1, by omega, ?_⟩
    unfold alternatingEvent
    rw [if_neg (by omega)]
    trivial
  replaced := by
    refine ⟨0, fun n replacements epoch _ heq => ?_⟩
    unfold alternatingEvent at heq
    split_ifs at heq
    exact (AppEvent.downlink.inj heq).2.1.symm

theorem commands_answered_alternating :
    ∃ m, 1 ≤ m ∧ ∃ call ∈ (alternating m).app.owner.calls, call.id = 7 :=
  (commands_answered fairRun_alternating).1 1 ⟨7, ⟨EDGE_TYPE_QUERY_LIGHT, []⟩⟩ (by decide +kernel)

end ReactorLoop

end EdgeGateway
