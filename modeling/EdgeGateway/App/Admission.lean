import EdgeGateway.App.Accounts

set_option autoImplicit false

/-! # Admission: every accepted message is answered once

The invariant of the threads is kept by the functions of each thread, hence by every interleaving.
Nothing that holds a reserved place is refused, so at the end every accepted message has its one
publication.
-/

namespace EdgeGateway

namespace Gateway

variable {s : Gateway} {text : CoreText}

/-! ## The core worker -/

theorem coreWork_ne_exited {debt : Debt} (hdebt : s.coreWork.debt = some debt) :
    s.coreWork ≠ .exited := by
  intro hwork
  rw [hwork] at hdebt
  cases hdebt

theorem Closing.work (h : s.Closing) (work : CoreWork) (hold : s.coreWork ≠ .exited)
    (hnew : work ≠ .exited) : Closing { s with coreWork := work } :=
  { h with
    coreExited := fun hwork => absurd hwork hnew
    coreOver := fun hphase => absurd (h.coreOver hphase) hold }

/-- The worker goes on with what it owes. -/
theorem Inv.work (h : s.Inv) {work : CoreWork} (hdebt : work.debt = s.coreWork.debt)
    (hbarriers : work.barriers = s.coreWork.barriers) (hold : s.coreWork ≠ .exited)
    (hnew : work ≠ .exited) : Inv { s with coreWork := work } where
  accounts := { h.accounts with
    balance := fun w => by
      have hbalance := h.accounts.balance w
      simp only [opened, carried, hdebt] at hbalance ⊢
      exact hbalance }
  rooms := { h.rooms with
    barrier := by
      have hbarrier := h.rooms.barrier
      rw [← hbarriers] at hbarrier
      exact hbarrier }
  closing := h.closing.work work hold hnew
  refused := h.refused

theorem Inv.take (h : s.Inv) {t : CoreTask} {rest : List CoreTask} (hwork : s.coreWork = .idle)
    (htasks : s.core.tasks = t :: rest) :
    Inv { s with core := { s.core with tasks := rest }, coreWork := .task t } where
  accounts := { h.accounts with
    balance := fun w => by
      have hbalance := h.accounts.balance w
      simp only [opened, carried, hwork, htasks, tally_cons, CoreWork.debt, weigh_none]
        at hbalance ⊢
      omega }
  rooms := { h.rooms with
    core := by
      have hcore := h.rooms.core
      rw [htasks, tally_cons] at hcore
      exact Nat.le_trans (Nat.le_add_left _ _) hcore
    barrier := by
      have hbarrier := h.rooms.barrier
      simp only [hwork, htasks, tally_cons, CoreWork.barriers, weigh_some] at hbarrier ⊢
      omega }
  closing := { h.closing with
    coreExited := fun hexited => by cases hexited
    coreOver := fun hphase => by
      have hover := h.closing.coreOver hphase
      rw [hwork] at hover
      cases hover }
  refused := h.refused

theorem Inv.coreExit (h : s.Inv) (hwork : s.coreWork = .idle) (htasks : s.core.tasks = [])
    (hclosed : s.core.closed = true) : Inv { s with coreWork := .exited } where
  accounts := { h.accounts with
    balance := fun w => by
      have hbalance := h.accounts.balance w
      simp only [opened, carried, hwork, CoreWork.debt] at hbalance ⊢
      exact hbalance }
  rooms := { h.rooms with
    barrier := by
      have hbarrier := h.rooms.barrier
      simp only [hwork, CoreWork.barriers] at hbarrier ⊢
      exact hbarrier }
  closing := { h.closing with
    coreExited := fun _ => ⟨hclosed, htasks⟩
    coreOver := fun _ => rfl }
  refused := h.refused

/-- A request that is owed is pending, so that its end is published. -/
theorem Inv.endRequest (h : s.Inv) {id : RequestId} (hdebt : s.coreWork.debt = some (.request id))
    (hbarriers : s.coreWork.barriers = 0) (message : String × String) :
    (s.endRequest id message).Inv := by
  unfold Gateway.endRequest
  cases htake : takeKey id s.pending with
  | none =>
      -- what is owed was opened by a pending command
      have hcarried : 0 < s.carried (Debt.request? id) := by
        rw [carried, hdebt, weigh_some, Debt.request?, if_pos rfl]
        omega
      obtain ⟨p, hp, hid⟩ := h.accounts.pending_of_carried hcarried
      exact absurd hid (takeKey_eq_none htake p hp)
  | some r =>
      obtain ⟨msg, rest⟩ := r
      obtain ⟨before, behind, hpending, rfl⟩ := takeKey_eq htake
      have hsub : (before ++ behind).Sublist s.pending := by
        rw [hpending]
        exact (List.sublist_cons_self _ _).append_left _
      dsimp only
      exact {
        accounts := { h.accounts with
          balance := fun w => by
            have hbalance := h.accounts.balance w
            simp only [opened, carried, hpending, hdebt, tally_append, tally_cons, weigh_some]
              at hbalance ⊢
            simp only [CoreWork.debt, weigh_some]
            omega
          ids := fun p hp => h.accounts.ids p (hsub.subset hp) }
        rooms := { h.rooms with
          barrier := by
            have hbarrier := h.rooms.barrier
            rw [hbarriers] at hbarrier
            exact hbarrier }
        closing := {
          h.closing.work (.publish _) (coreWork_ne_exited hdebt)
            (fun hwork => by cases hwork) with }
        refused := h.refused }

theorem Inv.handleMqtt (h : s.Inv) {msg : Nat} {topic payload : List UInt8}
    (hwork : s.coreWork = .task (.mqtt msg topic payload)) :
    (s.handleMqtt text msg topic payload).Inv := by
  unfold Gateway.handleMqtt
  cases text.translate topic payload with
  | error error =>
      apply h.work
      · rw [hwork]; rfl
      · rw [hwork]; rfl
      · simp [hwork]
      · exact fun he => by cases he
  | ok cmd =>
      -- the next number is above those of all pending commands
      have hnew : ¬ s.pending.any (·.1 = s.nextId) := by
        intro hany
        obtain ⟨p, hp, hid⟩ := List.any_eq_true.mp hany
        exact absurd (h.accounts.ids p hp) (Nat.not_lt.mpr (of_decide_eq_true hid).ge)
      dsimp only
      rw [if_neg hnew]
      exact {
        accounts := { h.accounts with
          balance := fun w => by
            have hbalance := h.accounts.balance w
            simp only [opened, carried, hwork, tally_append, tally_cons, tally_nil, weigh_some,
              CoreWork.debt, CoreTask.debt] at hbalance ⊢
            omega
          ids := fun p hp => by
            rcases List.mem_append.mp hp with hp | hp
            · exact Nat.lt_succ_of_lt (h.accounts.ids p hp)
            · rw [List.mem_singleton.mp hp]
              exact Nat.lt_succ_self _ }
        rooms := { h.rooms with
          barrier := by
            have hbarrier := h.rooms.barrier
            rw [hwork] at hbarrier
            exact hbarrier }
        closing := {
          h.closing.work (.submit _ _) (by simp [hwork])
            (fun he => by cases he) with }
        refused := h.refused }

theorem Inv.handleHttp (h : s.Inv) {query : Bool} (hwork : s.coreWork = .task (.http query)) :
    (s.handleHttp query).Inv := by
  have hold : s.coreWork ≠ .exited := by
    rw [hwork]
    exact fun he => by cases he
  unfold Gateway.handleHttp
  split_ifs with hquery
  · exact {
      accounts := { h.accounts with
        balance := fun w => by
          have hbalance := h.accounts.balance w
          simp only [opened, carried, hwork, CoreWork.debt, CoreTask.debt, weigh_none, weigh_some,
            Nat.succ_mul] at hbalance ⊢
          omega
        queries := hquery.2 }
      rooms := { h.rooms with
        barrier := by
          have hbarrier := h.rooms.barrier
          rw [hwork] at hbarrier
          exact hbarrier }
      closing := { h.closing.work .query hold (fun he => by cases he) with }
      refused := h.refused }
  · apply h.work _ _ hold
    · exact fun he => by cases he
    · rw [hwork]; rfl
    · rw [hwork]; rfl

/-- What is left of a query is its answer to the client. -/
theorem Inv.queryEnd (h : s.Inv) (hdebt : s.coreWork.debt = some .query)
    (hbarriers : s.coreWork.barriers = 0) :
    Inv { s with queries := s.queries - 1, coreWork := .idle } where
  accounts := { h.accounts with
    balance := fun w => by
      have hpos : 1 ≤ s.queries := by
        have hbalance := h.accounts.balance Debt.queries
        rw [opened_queries, carried, hdebt, weigh_some, Debt.queries] at hbalance
        omega
      obtain ⟨n, hn⟩ := Nat.exists_eq_add_of_le' hpos
      have hbalance := h.accounts.balance w
      simp only [opened, carried, hdebt, hn, weigh_some, Nat.succ_mul, Nat.add_sub_cancel]
        at hbalance ⊢
      simp only [CoreWork.debt, weigh_none]
      omega
    queries := Nat.le_trans (Nat.sub_le _ _) h.accounts.queries }
  rooms := { h.rooms with
    barrier := by
      have hbarrier := h.rooms.barrier
      rw [hbarriers] at hbarrier
      exact hbarrier }
  closing := {
    h.closing.work .idle (coreWork_ne_exited hdebt) (fun hwork => by cases hwork) with }
  refused := h.refused

theorem Inv.barrier (h : s.Inv) (hwork : s.coreWork = .task .barrier) :
    Inv { s with reached := true, coreWork := .idle } where
  accounts := { h.accounts with
    balance := fun w => by
      have hbalance := h.accounts.balance w
      simp only [opened, carried, hwork, CoreWork.debt, CoreTask.debt] at hbalance ⊢
      exact hbalance }
  rooms := { h.rooms with
    barrier := by
      have hbarrier := h.rooms.barrier
      have hone := (s.phase.since .awaiting).toNat_le
      cases hreached : s.reached with
      | true =>
          -- a second barrier would have been posted
          simp only [hwork, hreached, CoreWork.barriers, CoreTask.barriers, Bool.toNat_true]
            at hbarrier
          omega
      | false =>
          simp only [hwork, hreached, CoreWork.barriers, CoreTask.barriers, Bool.toNat_false,
            Bool.toNat_true] at hbarrier ⊢
          omega }
  closing := {
    h.closing.work .idle (by simp [hwork]) (fun he => by cases he) with }
  refused := h.refused

theorem Inv.runCoreTask (h : s.Inv) {t : CoreTask} (hwork : s.coreWork = .task t) :
    (s.runCoreTask text t).Inv := by
  cases t with
  | mqtt msg topic payload => exact h.handleMqtt hwork
  | telemetry readings =>
      apply h.work
      · rw [hwork]; rfl
      · rw [hwork]; rfl
      · simp [hwork]
      · exact fun he => by cases he
  | http query => exact h.handleHttp hwork
  | answer call =>
      cases call with
      | finished id result => exact h.endRequest (by rw [hwork]; rfl) (by rw [hwork]; rfl) _
      | rejected id error => exact h.endRequest (by rw [hwork]; rfl) (by rw [hwork]; rfl) _
  | queryDone => exact h.queryEnd (by rw [hwork]; rfl) (by rw [hwork]; rfl)
  | barrier => exact h.barrier hwork

/-- The management worker takes every publication. -/
theorem Inv.publishCommand (h : s.Inv) {p : Publication} (hwork : s.coreWork = .publish p) :
    (s.publishCommand p).Inv := by
  have hold : s.coreWork ≠ .exited := by
    rw [hwork]
    exact fun he => by cases he
  have hopen : s.manage.closed = false := by
    rw [h.closing.manage, Bool.eq_false_iff]
    exact fun hphase => hold (h.closing.coreOver hphase)
  unfold Gateway.publishCommand
  rw [TaskExecutor.post_completion hopen h.manage_room]
  exact {
    accounts := { h.accounts with
      balance := fun w => by
        have hbalance := h.accounts.balance w
        simp only [opened, carried, hwork, tally_append, tally_cons, tally_nil, weigh_none,
          weigh_some, CoreWork.debt, ManageTask.debt] at hbalance ⊢
        omega }
    rooms := { h.rooms with
      manage := by
        have hmanage := h.rooms.manage
        simpa using hmanage
      barrier := by
        have hbarrier := h.rooms.barrier
        rw [hwork] at hbarrier
        exact hbarrier
      reload := by
        have hreload := h.rooms.reload
        simpa using hreload }
    closing := { h.closing.work .idle hold (fun he => by cases he) with
      manageExited := fun he => by
        have hclosed := (h.closing.manageExited he).1
        rw [hopen] at hclosed
        cases hclosed }
    refused := h.refused }

theorem Inv.pushCommand (h : s.Inv) {id : RequestId} {cmd : DownCmd}
    (hwork : s.coreWork = .push id cmd) : (s.pushCommand id cmd).Inv := by
  unfold Gateway.pushCommand
  split_ifs with hbusy
  · exact h.endRequest (by rw [hwork]; rfl) (by rw [hwork]; rfl) _
  · have hopen : s.cmdClosed = false := Bool.eq_false_iff.mpr (not_or.mp hbusy).1
    rw [h.closing.cmdClosed, Bool.eq_false_iff] at hopen
    exact {
      accounts := { h.accounts with
        balance := fun w => by
          have hbalance := h.accounts.balance w
          simp only [opened, carried, hwork, tally_append, tally_cons, tally_nil, weigh_none,
            weigh_some, CoreWork.debt] at hbalance ⊢
          omega }
      rooms := { h.rooms with
        barrier := by
          have hbarrier := h.rooms.barrier
          rw [hwork] at hbarrier
          exact hbarrier }
      closing := {
        h.closing.work .idle (by simp [hwork])
          (fun he => by cases he) with
        drained := fun hphase => absurd (Phase.since_of_le hphase (by decide)) hopen }
      refused := h.refused }

/-- An uplink message is posted or dropped. -/
theorem Inv.publishUplink (h : s.Inv) {readings : List (String × String)}
    (hwork : s.coreWork = .uplink readings) : (s.publishUplink readings).Inv := by
  have hold : s.coreWork ≠ .exited := by
    rw [hwork]
    exact fun he => by cases he
  cases readings with
  | nil =>
      apply h.work _ _ hold
      · exact fun he => by cases he
      · rw [hwork]; rfl
      · rw [hwork]; rfl
  | cons reading rest =>
      have hnext : Inv { s with coreWork := .uplink rest } := by
        apply h.work _ _ hold
        · exact fun he => by cases he
        · rw [hwork]; rfl
        · rw [hwork]; rfl
      obtain ⟨device, value⟩ := reading
      dsimp only [Gateway.publishUplink]
      cases hpost : s.manage.post (.uplink ("gateway/up/" ++ device) value) false with
      | none => exact hnext
      | some manage =>
          obtain ⟨hopen, hroom, rfl⟩ := TaskExecutor.post_eq_some hpost
          exact {
            accounts := { hnext.accounts with
              balance := fun w => by
                have hbalance := hnext.accounts.balance w
                simp only [opened, carried] at hbalance ⊢
                simpa using hbalance }
            rooms := { hnext.rooms with
              manage := by
                have hlength := manageTask_length s.manage.tasks
                simp at hroom ⊢
                omega
              reload := by
                have hreload := hnext.rooms.reload
                simpa using hreload }
            closing := { hnext.closing with
              manageExited := fun he => by
                have hclosed := (h.closing.manageExited he).1
                rw [hopen] at hclosed
                cases hclosed }
            refused := h.refused }

theorem Inv.postQuery (h : s.Inv) (hwork : s.coreWork = .query) : s.postQuery.Inv := by
  unfold Gateway.postQuery
  cases hpost : s.query.post () false with
  | none => exact h.queryEnd (by rw [hwork]; rfl) (by rw [hwork]; rfl)
  | some query =>
      obtain ⟨hopen, hroom, rfl⟩ := TaskExecutor.post_eq_some hpost
      exact {
        accounts := { h.accounts with
          balance := fun w => by
            have hbalance := h.accounts.balance w
            simp only [opened, carried, hwork, tally_append, tally_cons, tally_nil, weigh_none,
              weigh_some, CoreWork.debt] at hbalance ⊢
            omega }
        rooms := { h.rooms with
          barrier := by
            have hbarrier := h.rooms.barrier
            rw [hwork] at hbarrier
            exact hbarrier }
        closing := {
          h.closing.work .idle (by simp [hwork])
            (fun he => by cases he) with
          queryExited := fun he => by
            have hclosed := (h.closing.queryExited he).1
            rw [hopen] at hclosed
            cases hclosed }
        refused := h.refused }

theorem Inv.coreStep (h : s.Inv) : (s.coreStep text).Inv := by
  unfold Gateway.coreStep
  cases hwork : s.coreWork with
  | idle =>
      dsimp only
      cases htasks : s.core.tasks with
      | cons t rest => exact h.take hwork htasks
      | nil =>
          dsimp only
          split_ifs with hclosed
          · exact h.coreExit hwork htasks hclosed
          · exact h
  | task t => exact h.runCoreTask hwork
  | submit id cmd =>
      dsimp only
      split_ifs
      · exact h.endRequest (by rw [hwork]; rfl) (by rw [hwork]; rfl) _
      · apply h.work
        · rw [hwork]; rfl
        · rw [hwork]; rfl
        · simp [hwork]
        · exact fun he => by cases he
  | push id cmd => exact h.pushCommand hwork
  | publish p => exact h.publishCommand hwork
  | uplink readings => exact h.publishUplink hwork
  | query => exact h.postQuery hwork
  | exited => exact h

/-! ## Posting to the core -/

theorem Rooms.post (h : s.Rooms) {t : CoreTask}
    (hordinary : tally some CoreTask.ordinary s.core.tasks + t.ordinary ≤ 1024)
    (hbarriers : t.barriers = 0) :
    Rooms { s with core := { s.core with tasks := s.core.tasks ++ [t] } } :=
  { h with
    core := by
      rw [tally_append, tally_cons, tally_nil, weigh_some]
      exact hordinary
    barrier := by
      have hbarrier := h.barrier
      rw [tally_append, tally_cons, tally_nil, weigh_some, hbarriers]
      exact hbarrier }

theorem Closing.post (h : s.Closing) (t : CoreTask) (hopen : s.core.closed = false) :
    Closing { s with core := { s.core with tasks := s.core.tasks ++ [t] } } :=
  { h with
    coreExited := fun hwork => by
      have hclosed := (h.coreExited hwork).1
      rw [hopen] at hclosed
      cases hclosed }

/-- An ordinary task finds fewer than 1024 tasks of all kinds. -/
theorem ordinary_le {tasks : List CoreTask} (hroom : tasks.length < 1024 + 0) (t : CoreTask) :
    tally some CoreTask.ordinary tasks + t.ordinary ≤ 1024 := by
  have hlength := coreTask_length tasks
  have hone : t.ordinary ≤ 1 := by cases t <;> simp
  omega

/-! ## MQTT callbacks -/

section

variable {before behind : List MqttCall} {c : MqttCall}

theorem Closing.call (h : s.Closing) (calls : List MqttCall)
    (hcalls : s.calls = before ++ c :: behind) : Closing { s with calls := calls } :=
  { h with
    callsOver := fun hphase => by
      have hover := h.callsOver hphase
      rw [hcalls] at hover
      cases (List.append_eq_nil_iff.mp hover).2 }

/-- A call goes on or returns without a change of its credit. -/
theorem Inv.call (h : s.Inv) (hcalls : s.calls = before ++ c :: behind) {r : Option MqttCall}
    (hmsg : ∀ c' ∈ r, c'.msg = c.msg)
    (hcredit : weigh (fun _ => 1) (r.bind MqttCall.credit) = weigh (fun _ => 1) c.credit) :
    Inv { s with calls := before ++ r.toList ++ behind } where
  accounts := { h.accounts with
    credits := by
      have hcredits := h.accounts.credits
      cases r with
      | none => simp [hcalls] at hcredits hcredit ⊢; omega
      | some c' => simp [hcalls] at hcredits hcredit ⊢; omega
    fresh := fun msg => by
      have hfresh := h.accounts.fresh msg
      rw [hcalls] at hfresh
      refine Nat.le_trans ?_ hfresh
      cases r with
      | none => simp [List.count_cons]
      | some c' => simp [List.count_cons, hmsg c' rfl] }
  rooms := { h.rooms with }
  closing := h.closing.call _ hcalls
  refused := h.refused

theorem Inv.credit (h : s.Inv) (hcalls : s.calls = before ++ c :: behind)
    (hstage : c.stage = .checked) (hbudget : s.admitted < kMaxCommands) :
    Inv { s with
      calls := before ++ [{ c with stage := .credited }] ++ behind
      admitted := s.admitted + 1 } where
  accounts := { h.accounts with
    credits := by
      have hcredits := h.accounts.credits
      simp [hcalls, MqttCall.credit, hstage] at hcredits ⊢
      omega
    budget := hbudget
    fresh := fun msg => by
      have hfresh := h.accounts.fresh msg
      rw [hcalls] at hfresh
      simpa using hfresh }
  rooms := { h.rooms with }
  closing := { h.closing.call (before ++ [{ c with stage := .credited }] ++ behind) hcalls with }
  refused := h.refused

/-- With the task, the message is accepted. -/
theorem Inv.accept (h : s.Inv) (hcalls : s.calls = before ++ c :: behind)
    (hstage : c.stage = .credited) (hopen : s.core.closed = false)
    (hroom : s.core.tasks.length < 1024 + 0) :
    Inv { s with
      calls := before ++ behind
      core := { s.core with tasks := s.core.tasks ++ [.mqtt c.msg c.topic c.payload] }
      accepted := s.accepted ++ [c.msg] } where
  accounts := { h.accounts with
    balance := fun w => by
      have hbalance := h.accounts.balance w
      simp only [opened, carried, tally_append, tally_cons, tally_nil, weigh_some, CoreTask.debt]
        at hbalance ⊢
      omega
    credits := by
      have hcredits := h.accounts.credits
      simp [hcalls, MqttCall.credit, hstage] at hcredits ⊢
      omega
    fresh := fun msg => by
      have hfresh := h.accounts.fresh msg
      rw [hcalls] at hfresh
      refine Nat.le_trans (Nat.le_of_eq ?_) hfresh
      simp [List.count_cons]
      omega }
  rooms := { h.rooms.post (ordinary_le hroom (.mqtt c.msg c.topic c.payload)) rfl with }
  closing := {
    h.closing.post (.mqtt c.msg c.topic c.payload) hopen with
    callsOver := (h.closing.call (before ++ behind) hcalls).callsOver }
  refused := h.refused

/-- A credit that was not used goes back. -/
theorem Inv.giveBack (h : s.Inv) (hcalls : s.calls = before ++ c :: behind)
    (hstage : c.stage = .refused) :
    Inv { s.releaseCommand with calls := before ++ behind } where
  accounts := { h.accounts with
    credits := by
      have hcredits := h.accounts.credits
      have hmessages := h.accounts.messages
      simp [hcalls, MqttCall.credit, hstage, releaseCommand] at hcredits ⊢
      omega
    budget := Nat.le_trans (Nat.sub_le _ _) h.accounts.budget
    fresh := fun msg => by
      have hfresh := h.accounts.fresh msg
      rw [hcalls] at hfresh
      refine Nat.le_trans ?_ hfresh
      simp [List.count_cons, releaseCommand] }
  rooms := { h.rooms with }
  closing := { h.closing.call (before ++ behind) hcalls with }
  refused := h.refused

end

theorem Inv.mqttStep (h : s.Inv) (i : Nat) : (s.mqttStep i).Inv := by
  unfold Gateway.mqttStep
  cases hpick : pick i s.calls with
  | none => exact h
  | some r =>
      obtain ⟨before, c, behind⟩ := r
      have hcalls := pick_eq hpick
      dsimp only
      unfold Gateway.callStep
      cases hstage : c.stage with
      | called =>
          dsimp only
          split_ifs
          · apply h.call hcalls (r := none)
            · exact fun c' hc' => by cases hc'
            · simp [MqttCall.credit, hstage]
          · apply h.call hcalls (r := some { c with stage := .checked })
            · simp
            · simp [MqttCall.credit, hstage]
      | checked =>
          dsimp only
          split_ifs with hfull
          · apply h.call hcalls (r := none)
            · exact fun c' hc' => by cases hc'
            · simp [MqttCall.credit, hstage]
          · exact h.credit hcalls hstage (Nat.not_le.mp hfull)
      | credited =>
          dsimp only
          cases hpost : s.core.post (.mqtt c.msg c.topic c.payload) false with
          | none =>
              apply h.call hcalls (r := some { c with stage := .refused })
              · simp
              · simp [MqttCall.credit, hstage]
          | some core =>
              obtain ⟨hopen, hroom, rfl⟩ := TaskExecutor.post_eq_some hpost
              simpa using h.accept hcalls hstage hopen hroom
      | refused => simpa using h.giveBack hcalls hstage

theorem Inv.arrive (h : s.Inv) (topic payload : List UInt8) : (s.arrive topic payload).Inv := by
  unfold Gateway.arrive
  split_ifs with hstopping
  · exact h
  · exact {
      accounts := { h.accounts with
        credits := by
          have hcredits := h.accounts.credits
          simp [MqttCall.credit] at hcredits ⊢
          exact hcredits
        fresh := fun msg => by
          have hfresh := h.accounts.fresh msg
          simp [List.count_cons] at hfresh ⊢
          split_ifs at hfresh ⊢ <;> omega }
      rooms := { h.rooms with }
      closing := { h.closing with
        callsOver := fun hphase =>
          absurd (h.closing.stopping (Phase.since_of_le hphase (by decide))) hstopping }
      refused := h.refused }

/-! ## The query worker -/

theorem Inv.queryTake (h : s.Inv) (hwork : s.queryWork = .idle) {t : Unit} {rest : List Unit}
    (htasks : s.query.tasks = t :: rest) :
    Inv { s with query := { s.query with tasks := rest }, queryWork := .running } where
  accounts := { h.accounts with
    balance := fun w => by
      have hbalance := h.accounts.balance w
      simp only [opened, carried, hwork, htasks, tally_cons, weigh_none, weigh_some,
        QueryWork.debt] at hbalance ⊢
      omega }
  rooms := { h.rooms with }
  closing := { h.closing with
    queryExited := fun he => by cases he
    queryOver := fun hphase => by
      have hover := h.closing.queryOver hphase
      rw [hwork] at hover
      cases hover }
  refused := h.refused

theorem Inv.queryExit (h : s.Inv) (hwork : s.queryWork = .idle) (htasks : s.query.tasks = [])
    (hclosed : s.query.closed = true) : Inv { s with queryWork := .exited } where
  accounts := { h.accounts with
    balance := fun w => by
      have hbalance := h.accounts.balance w
      simp only [opened, carried, hwork, QueryWork.debt] at hbalance ⊢
      exact hbalance }
  rooms := { h.rooms with }
  closing := { h.closing with
    queryExited := fun _ => ⟨hclosed, htasks⟩
    queryOver := fun _ => rfl }
  refused := h.refused

/-- The end of a query goes to the core, which takes it. -/
theorem Inv.queryDone (h : s.Inv) (hwork : s.queryWork = .running)
    (hopen : s.core.closed = false) :
    Inv { s with
      core := { s.core with tasks := s.core.tasks ++ [.queryDone] }
      queryWork := .idle } where
  accounts := { h.accounts with
    balance := fun w => by
      have hbalance := h.accounts.balance w
      simp only [opened, carried, hwork, tally_append, tally_cons, tally_nil, weigh_none,
        weigh_some, QueryWork.debt, CoreTask.debt] at hbalance ⊢
      omega }
  rooms := { h.rooms.post (t := .queryDone) h.rooms.core rfl with }
  closing := { h.closing.post .queryDone hopen with
    queryExited := fun he => by cases he
    queryOver := fun hphase => by
      have hover := h.closing.queryOver hphase
      rw [hwork] at hover
      cases hover }
  refused := h.refused

theorem Inv.queryStep (h : s.Inv) : s.queryStep.Inv := by
  unfold Gateway.queryStep
  cases hwork : s.queryWork with
  | idle =>
      dsimp only
      cases htasks : s.query.tasks with
      | cons t rest => exact h.queryTake hwork htasks
      | nil =>
          dsimp only
          split_ifs with hclosed
          · exact h.queryExit hwork htasks hclosed
          · exact h
  | running =>
      -- the core is closed after the query worker has exited
      have hopen : s.core.closed = false := by
        rw [h.closing.core, Bool.eq_false_iff]
        intro hphase
        have hover := h.closing.queryOver hphase
        rw [hwork] at hover
        cases hover
      dsimp only
      rw [TaskExecutor.post_completion hopen h.core_room]
      exact h.queryDone hwork hopen
  | exited => exact h

/-! ## The management worker -/

theorem Closing.manageWork (h : s.Closing) (work : ManageWork) (hold : s.manageWork ≠ .exited)
    (hnew : work ≠ .exited) : Closing { s with manageWork := work } :=
  { h with
    manageExited := fun hwork => absurd hwork hnew
    manageOver := fun hphase => absurd (h.manageOver hphase) hold }

/-- A publication leaves its credit to be released. -/
theorem Inv.terminal (h : s.Inv) {p : Publication} (hwork : s.manageWork = .task (.terminal p)) :
    Inv { s with published := s.published ++ [p], manageWork := .release p.msg } where
  accounts := { h.accounts with
    balance := fun w => by
      have hbalance := h.accounts.balance w
      simp only [opened, carried, hwork, ManageWork.debt, ManageTask.debt] at hbalance ⊢
      exact hbalance
    published := fun w => by
      have hpublished := h.accounts.published w
      simp only [hwork, tally_append, tally_cons, tally_nil, weigh_none, weigh_some,
        ManageWork.released] at hpublished ⊢
      omega }
  rooms := { h.rooms with
    reload := by
      have hreload := h.rooms.reload
      rw [hwork] at hreload
      exact hreload }
  closing := {
    h.closing.manageWork (.release p.msg) (by simp [hwork]) (fun he => by cases he) with }
  refused := h.refused

/-- What is neither published nor released is over; `pending` is the flag for reloads after it. -/
theorem Inv.manageEnd (h : s.Inv) {t : ManageTask} (hwork : s.manageWork = .task t)
    (hdebt : t.debt = none) {pending : Bool}
    (hpending : s.reloadPending.toNat ≤ pending.toNat + t.reloads) :
    Inv { s with reloadPending := pending, manageWork := .idle } where
  accounts := { h.accounts with
    balance := fun w => by
      have hbalance := h.accounts.balance w
      simp only [opened, carried, hwork, hdebt, ManageWork.debt] at hbalance ⊢
      exact hbalance
    published := fun w => by
      have hpublished := h.accounts.published w
      rw [hwork] at hpublished
      exact hpublished }
  rooms := { h.rooms with
    reload := by
      have hreload := h.rooms.reload
      simp only [hwork, ManageWork.reloads] at hreload ⊢
      omega }
  closing := { h.closing.manageWork .idle (by simp [hwork]) (fun he => by cases he) with }
  refused := h.refused

theorem Inv.runManageTask (h : s.Inv) {t : ManageTask} (hwork : s.manageWork = .task t) :
    (s.runManageTask t).Inv := by
  cases t with
  | terminal p => exact h.terminal hwork
  | uplink topic value => exact h.manageEnd hwork rfl (Nat.le_add_right _ _)
  | reload =>
      apply h.manageEnd hwork rfl
      exact Nat.le_trans s.reloadPending.toNat_le (by decide)

/-- The credit goes back when the publication has been made. -/
theorem Inv.release (h : s.Inv) {msg : Nat} (hwork : s.manageWork = .release msg) :
    Inv { s.releaseCommand with settled := s.settled ++ [msg], manageWork := .idle } where
  accounts := { h.accounts with
    balance := fun w => by
      have hbalance := h.accounts.balance w
      simp only [opened, carried, hwork, tally_append, tally_cons, tally_nil, weigh_none,
        weigh_some, ManageWork.debt, releaseCommand] at hbalance ⊢
      omega
    credits := by
      have hcredits := h.accounts.credits
      have hmessages := h.accounts.messages
      simp [hwork, releaseCommand] at hcredits hmessages ⊢
      omega
    budget := Nat.le_trans (Nat.sub_le _ _) h.accounts.budget
    published := fun w => by
      have hpublished := h.accounts.published w
      simp only [hwork, tally_append, tally_cons, tally_nil, weigh_none, weigh_some,
        ManageWork.released, releaseCommand] at hpublished ⊢
      omega }
  rooms := { h.rooms with
    reload := by
      have hreload := h.rooms.reload
      rw [hwork] at hreload
      exact hreload }
  closing := { h.closing.manageWork .idle (by simp [hwork]) (fun he => by cases he) with }
  refused := h.refused

theorem Inv.manageTake (h : s.Inv) (hwork : s.manageWork = .idle) {t : ManageTask}
    {rest : List ManageTask} (htasks : s.manage.tasks = t :: rest) :
    Inv { s with manage := { s.manage with tasks := rest }, manageWork := .task t } where
  accounts := { h.accounts with
    balance := fun w => by
      have hbalance := h.accounts.balance w
      simp only [opened, carried, hwork, htasks, tally_cons, weigh_none, ManageWork.debt]
        at hbalance ⊢
      omega
    published := fun w => by
      have hpublished := h.accounts.published w
      rw [hwork] at hpublished
      exact hpublished }
  rooms := { h.rooms with
    manage := by
      have hmanage := h.rooms.manage
      rw [htasks, tally_cons] at hmanage
      exact Nat.le_trans (Nat.le_add_left _ _) hmanage
    reload := by
      have hreload := h.rooms.reload
      simp only [hwork, htasks, tally_cons, weigh_some, ManageWork.reloads] at hreload ⊢
      omega }
  closing := {
    h.closing.manageWork (.task t) (by simp [hwork]) (fun he => by cases he) with
    manageExited := fun he => by cases he }
  refused := h.refused

theorem Inv.manageExit (h : s.Inv) (hwork : s.manageWork = .idle) (htasks : s.manage.tasks = [])
    (hclosed : s.manage.closed = true) : Inv { s with manageWork := .exited } where
  accounts := { h.accounts with
    balance := fun w => by
      have hbalance := h.accounts.balance w
      simp only [opened, carried, hwork, ManageWork.debt] at hbalance ⊢
      exact hbalance
    published := fun w => by
      have hpublished := h.accounts.published w
      rw [hwork] at hpublished
      exact hpublished }
  rooms := { h.rooms with
    reload := by
      have hreload := h.rooms.reload
      rw [hwork] at hreload
      exact hreload }
  closing := { h.closing with
    manageExited := fun _ => ⟨hclosed, htasks⟩
    manageOver := fun _ => rfl }
  refused := h.refused

theorem Inv.manageStep (h : s.Inv) : s.manageStep.Inv := by
  unfold Gateway.manageStep
  cases hwork : s.manageWork with
  | idle =>
      dsimp only
      cases htasks : s.manage.tasks with
      | cons t rest => exact h.manageTake hwork htasks
      | nil =>
          dsimp only
          split_ifs with hclosed
          · exact h.manageExit hwork htasks hclosed
          · exact h
  | task t => exact h.runManageTask hwork
  | release msg => exact h.release hwork
  | exited => exact h

/-! ## The reactor and its neighbours -/

theorem serves_early (hserves : s.serves = true) :
    ¬ s.phase.since .drained ∧ ¬ s.phase.since .closingCore := by
  unfold Gateway.serves at hserves
  rcases of_decide_eq_true hserves with hphase | hphase
  · rw [hphase]; decide
  · rw [hphase]; decide

theorem Inv.pop (h : s.Inv) : s.pop.Inv := by
  unfold Gateway.pop
  cases hqueue : s.cmdQueue with
  | nil => exact h
  | cons d rest =>
      dsimp only
      split_ifs with hserves
      · exact {
          accounts := { h.accounts with
            balance := fun w => by
              have hbalance := h.accounts.balance w
              simp only [opened, carried, hqueue, tally_append, tally_cons, tally_nil,
                weigh_some] at hbalance ⊢
              omega }
          rooms := { h.rooms with }
          closing := { h.closing with
            drained := fun hphase => absurd hphase (serves_early hserves).1 }
          refused := h.refused }
      · exact h

/-- The core takes every answer. -/
theorem Inv.answer (h : s.Inv) (i : Nat) (result : Except String CommandCompletion) :
    (s.answer i result).Inv := by
  unfold Gateway.answer
  cases hpick : pick i s.held with
  | none => exact h
  | some r =>
      obtain ⟨before, id, behind⟩ := r
      have hheld := pick_eq hpick
      dsimp only
      split_ifs with hserves
      · obtain ⟨hdrained, hclosing⟩ := serves_early hserves
        have hopen : s.core.closed = false := by
          rw [h.closing.core, Bool.eq_false_iff]
          exact hclosing
        have hpost : ∀ call : CoreCall, call.id = id →
            (Gateway.postAnswer { s with held := before ++ behind } call).Inv := by
          intro call hid
          unfold Gateway.postAnswer
          dsimp only
          rw [TaskExecutor.post_completion hopen h.core_room]
          exact {
            accounts := { h.accounts with
              balance := fun w => by
                have hbalance := h.accounts.balance w
                simp only [opened, carried, hheld, tally_append, tally_cons, tally_nil,
                  weigh_some, CoreTask.debt, hid] at hbalance ⊢
                omega }
            rooms := { h.rooms.post (t := .answer call) h.rooms.core rfl with }
            closing := { h.closing.post (.answer call) hopen with
              drained := fun hphase => absurd hphase hdrained }
            refused := h.refused }
        cases result with
        | ok completion => exact hpost _ rfl
        | error error => exact hpost _ rfl
      · exact h

theorem Inv.postOrdinary (h : s.Inv) {t : CoreTask} (hdebt : t.debt = none)
    (hbarriers : t.barriers = 0) : (s.postOrdinary t).Inv := by
  unfold Gateway.postOrdinary
  cases hpost : s.core.post t false with
  | none => exact h
  | some core =>
      obtain ⟨hopen, hroom, rfl⟩ := TaskExecutor.post_eq_some hpost
      exact {
        accounts := { h.accounts with
          balance := fun w => by
            have hbalance := h.accounts.balance w
            simp only [opened, carried, Option.getD_some, tally_append, tally_cons, tally_nil,
              hdebt, weigh_none] at hbalance ⊢
            exact hbalance }
        rooms := { h.rooms.post (ordinary_le hroom t) hbarriers with }
        closing := { h.closing.post t hopen with }
        refused := h.refused }

theorem Inv.telemetry (h : s.Inv) (readings : List (String × String)) :
    (s.telemetry readings).Inv := by
  unfold Gateway.telemetry
  split_ifs
  · exact h.postOrdinary rfl rfl
  · exact h

theorem Inv.httpRequest (h : s.Inv) (query : Bool) : (s.httpRequest query).Inv := by
  unfold Gateway.httpRequest
  split_ifs
  · exact h.postOrdinary rfl rfl
  · exact h

theorem Inv.requestReload (h : s.Inv) : s.requestReload.Inv := by
  unfold Gateway.requestReload
  split_ifs with hreload
  · obtain ⟨-, -, hpending⟩ := hreload
    cases hpost : s.manage.post .reload true with
    | none => exact h
    | some manage =>
        obtain ⟨hopen, -, rfl⟩ := TaskExecutor.post_eq_some hpost
        exact {
          accounts := { h.accounts with
            balance := fun w => by
              have hbalance := h.accounts.balance w
              simp only [opened, carried, tally_append, tally_cons, tally_nil, weigh_none,
                ManageTask.debt] at hbalance ⊢
              exact hbalance }
          rooms := { h.rooms with
            manage := by
              have hmanage := h.rooms.manage
              simpa using hmanage
            reload := by
              have hreload := h.rooms.reload
              simp [hpending] at hreload ⊢
              omega }
          closing := { h.closing with
            manageExited := fun he => by
              have hclosed := (h.closing.manageExited he).1
              rw [hopen] at hclosed
              cases hclosed }
          refused := h.refused }
  · exact h

theorem Inv.requestStop (h : s.Inv) : s.requestStop.Inv := by
  unfold Gateway.requestStop
  split_ifs
  · exact {
      accounts := { h.accounts with }
      rooms := { h.rooms with }
      closing := { h.closing with stopping := fun _ => rfl }
      refused := h.refused }
  · exact h

/-! ## The main thread -/

theorem Closing.at (h : s.Closing) {phase : Phase} (hphase : s.phase = phase) :
    Closing { s with phase := phase } := by
  rw [← hphase]
  exact h

theorem Rooms.at (h : s.Rooms) {phase : Phase} (hphase : s.phase = phase) :
    Rooms { s with phase := phase } := by
  rw [← hphase]
  exact h

theorem Inv.postBarrier (h : s.Inv) (hphase : s.phase = .drained)
    (hopen : s.core.closed = false) :
    Inv { s with
      core := { s.core with tasks := s.core.tasks ++ [.barrier] }
      phase := .awaiting } where
  accounts := { h.accounts with
    balance := fun w => by
      have hbalance := h.accounts.balance w
      simp only [opened, carried, tally_append, tally_cons, tally_nil, weigh_none, CoreTask.debt]
        at hbalance ⊢
      exact hbalance }
  rooms := { h.rooms.at hphase with
    core := by
      have hcore := h.rooms.core
      simpa using hcore
    barrier := by
      have hbarrier := h.rooms.barrier
      rw [hphase] at hbarrier
      change _ = 0 at hbarrier
      simp only [tally_append, tally_cons, tally_nil, weigh_some, CoreTask.barriers]
      change _ + 1 + _ + _ = 1
      omega }
  closing := { (h.closing.at hphase).post .barrier hopen with }
  refused := h.refused

theorem Inv.mainStep (h : s.Inv) : s.mainStep.Inv := by
  unfold Gateway.mainStep
  cases hphase : s.phase with
  | loop =>
      exact {
        accounts := { h.accounts with }
        rooms := { h.rooms.at hphase with }
        closing := { h.closing.at hphase with stopping := fun _ => rfl }
        refused := h.refused }
  | stopped =>
      exact {
        accounts := { h.accounts with }
        rooms := { h.rooms.at hphase with }
        closing := { h.closing.at hphase with }
        refused := h.refused }
  | reloadsJoined =>
      exact {
        accounts := { h.accounts with }
        rooms := { h.rooms.at hphase with }
        closing := { h.closing.at hphase with cmdClosed := rfl }
        refused := h.refused }
  | queueClosed =>
      exact {
        accounts := { h.accounts with }
        rooms := { h.rooms.at hphase with }
        closing := { h.closing.at hphase with }
        refused := h.refused }
  | draining =>
      dsimp only
      split_ifs with hdrained
      · exact {
          accounts := { h.accounts with }
          rooms := { h.rooms.at hphase with }
          closing := { h.closing.at hphase with drained := fun _ => hdrained }
          refused := h.refused }
      · exact h
  | drained =>
      -- the barrier is posted while the core takes completions
      have hopen : s.core.closed = false := by
        rw [h.closing.core, hphase]
        rfl
      dsimp only
      rw [TaskExecutor.post_completion hopen h.core_room]
      exact h.postBarrier hphase hopen
  | awaiting =>
      dsimp only
      split_ifs with hreached
      · exact {
          accounts := { h.accounts with }
          rooms := { h.rooms.at hphase with }
          closing := { h.closing.at hphase with
            query := rfl
            queryExited := fun he => ⟨rfl, (h.closing.queryExited he).2⟩ }
          refused := h.refused }
      · exact h
  | closingQueries =>
      dsimp only
      split_ifs with hexited
      · exact {
          accounts := { h.accounts with }
          rooms := { h.rooms.at hphase with }
          closing := { h.closing.at hphase with
            core := rfl
            coreExited := fun he => ⟨rfl, (h.closing.coreExited he).2⟩
            queryOver := fun _ => hexited }
          refused := h.refused }
      · exact h
  | closingCore =>
      dsimp only
      split
      next hwork =>
          exact {
            accounts := { h.accounts with }
            rooms := { h.rooms.at hphase with }
            closing := { h.closing.at hphase with
              manage := rfl
              manageExited := fun he => ⟨rfl, (h.closing.manageExited he).2⟩
              coreOver := fun _ => hwork }
            refused := h.refused }
      next => exact h
  | closingManage =>
      dsimp only
      split
      next hwork =>
          exact {
            accounts := { h.accounts with }
            rooms := { h.rooms.at hphase with }
            closing := { h.closing.at hphase with manageOver := fun _ => hwork }
            refused := h.refused }
      next => exact h
  | joiningMqtt =>
      dsimp only
      split_ifs with hcalls
      · exact {
          accounts := { h.accounts with }
          rooms := { h.rooms.at hphase with }
          closing := { h.closing.at hphase with
            callsOver := fun _ => List.isEmpty_iff.mp hcalls }
          refused := h.refused }
      · exact h
  | done => exact h

/-! ## Every interleaving -/

theorem Inv.step (h : s.Inv) (a : GatewayAction) : (s.step text a).Inv := by
  cases a with
  | arrive topic payload => exact h.arrive topic payload
  | mqtt i => exact h.mqttStep i
  | core => exact h.coreStep
  | query => exact h.queryStep
  | manage => exact h.manageStep
  | main => exact h.mainStep
  | pop => exact h.pop
  | answer i result => exact h.answer i result
  | telemetry readings => exact h.telemetry readings
  | http query => exact h.httpRequest query
  | reload => exact h.requestReload
  | stop => exact h.requestStop

theorem inv_run (text : CoreText) (actions : List GatewayAction) : (run text actions).Inv :=
  List.foldlRecOn actions (step text) inv_init fun _ h a _ => h.step a

end Gateway

end EdgeGateway
