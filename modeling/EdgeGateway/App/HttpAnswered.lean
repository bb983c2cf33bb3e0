import EdgeGateway.App.HttpAccounts

set_option autoImplicit false

/-! # Every accepted HTTP request is answered once

Each step of a caller, a worker or the owner keeps the balance of `GatewayCore`. When `stop` has
returned, the mailboxes are empty and the workers are gone, so nothing is owed and every accepted
request has its one reply.
-/

namespace EdgeGateway

namespace GatewayCore

variable {δ ν : Type} {s : GatewayCore δ ν} {asset : WebAsset} {formatValue : ν → List UInt8}

/-! ## Closing -/

namespace Closing

/-- The core worker is gone only at the end. -/
theorem working (h : s.Closing) (hbusy : s.work.isExited = false) : s.stage.rank < 5 := by
  by_contra hrank
  have hover := h.coreOver (Nat.not_lt.mp hrank)
  rw [hbusy] at hover
  exact Bool.false_ne_true hover

/-- The core worker goes on to something else. -/
theorem work (h : s.Closing) (work : Work δ ν) (hbusy : s.work.isExited = false)
    (hbarriers : work.barriers = s.work.barriers) (hwork : work.isExited = false) :
    Closing { s with work := work } :=
  { h with
    barrier := by
      rw [hbarriers]
      exact h.barrier
    coreExited := fun hexited => by
      rw [hwork] at hexited
      exact absurd hexited Bool.false_ne_true
    coreOver := fun hrank => absurd hrank (Nat.not_le.mpr (h.working hbusy)) }

/-- A task is posted. -/
theorem post (h : s.Closing) (t : Task ν) (hopen : s.core.closed = false)
    (hbarriers : t.barriers = 0) :
    Closing { s with core := { s.core with tasks := s.core.tasks ++ [t] } } :=
  { h with
    barrier := by
      rw [tally_append, tally_cons, tally_nil, weigh_some, hbarriers]
      exact h.barrier
    coreExited := fun hwork => by
      have hclosed := (h.coreExited hwork).1
      rw [hopen] at hclosed
      exact absurd hclosed Bool.false_ne_true }

end Closing

namespace Inv

/-! ## Callers -/

theorem httpRequest (h : s.Inv) (request : HttpRequest) : (s.httpRequest request).Inv := by
  unfold GatewayCore.httpRequest
  by_cases haccepting : s.accepting = true
  · rw [if_pos haccepting]
    refine ⟨{ h.accounts with fresh := fun id => ?_ }, { h.closing with }⟩
    have hfresh := h.accounts.fresh id
    -- the number is new: no call and no accepted request has it
    simp only [List.map_append, List.map_cons, List.map_nil, List.count_append,
      List.count_singleton, beq_iff_eq] at hfresh ⊢
    split_ifs at hfresh ⊢ <;> omega
  · rw [if_neg haccepting]
    exact h

/-- A request leaves its caller; when it is not taken, the call returns `false`. -/
theorem postHttp (h : s.Inv) {before : List (Nat × HttpRequest)} {id : Nat} {request : HttpRequest}
    {after : List (Nat × HttpRequest)} (hcalls : s.httpCalls = before ++ (id, request) :: after) :
    ({ s with httpCalls := before ++ after }.postHttp id request).Inv := by
  have hfresh := h.accounts.fresh
  rw [hcalls] at hfresh
  unfold GatewayCore.postHttp
  cases hpost : s.core.post (.http id request) false with
  | none =>
      refine ⟨{ h.accounts with fresh := fun id' => ?_ }, { h.closing with }⟩
      refine Nat.le_trans ?_ (hfresh id')
      simp only [List.map_append, List.map_cons, List.count_append, List.count_cons]
      omega
  | some core =>
      obtain ⟨hopen, hroom, rfl⟩ := TaskExecutor.post_eq_some hpost
      refine ⟨{ h.accounts with
        balance := fun w => ?_
        fresh := fun id' => ?_
        ordinary := ordinary_room hroom (.http id request) },
        { h.closing.post (.http id request) hopen rfl with }⟩
      · have hbalance := h.accounts.balance w
        simp only [opened, carried, owing_append, owing_cons, owing_nil, tally_cons, tally_nil,
          weigh_some, Task.debts] at hbalance ⊢
        omega
      · refine Nat.le_trans (Nat.le_of_eq ?_) (hfresh id')
        simp only [List.map_append, List.map_cons, List.count_append, List.count_cons,
          List.count_nil]
        omega

theorem mqttMessage (h : s.Inv) : s.mqttMessage.Inv := by
  unfold GatewayCore.mqttMessage
  by_cases haccepting : s.accepting = true
  · rw [if_pos haccepting]
    refine ⟨{ h.accounts with balance := fun w => ?_ }, { h.closing with }⟩
    have hbalance := h.accounts.balance w
    simp only [opened, carried, owing_append, owing_cons, owing_nil, tally_nil, stageDebts]
      at hbalance ⊢
    omega
  · rw [if_neg haccepting]
    exact h

/-- A credit is taken, goes along with the task, or is given back. -/
theorem mqttCall (h : s.Inv) {before : List MqttStage} {stage : MqttStage} {after : List MqttStage}
    (hcalls : s.mqttCalls = before ++ stage :: after) : (s.mqttCall before stage after).Inv := by
  have hbalance := h.accounts.balance
  unfold opened carried at hbalance
  rw [hcalls] at hbalance
  unfold GatewayCore.mqttCall GatewayCore.mqttStep
  cases stage with
  | called =>
      refine ⟨{ h.accounts with balance := fun w => ?_ }, { h.closing with }⟩
      have hw := hbalance w
      simp [opened, carried] at hw ⊢
      omega
  | checked =>
      dsimp only
      by_cases hfull : s.admitted ≥ kMaxCommands
      · rw [if_pos hfull]
        refine ⟨{ h.accounts with balance := fun w => ?_ }, { h.closing with }⟩
        have hw := hbalance w
        simp [opened, carried] at hw ⊢
        omega
      · rw [if_neg hfull]
        refine ⟨{ h.accounts with balance := fun w => ?_, budget := Nat.not_le.mp hfull },
          { h.closing with }⟩
        have hw := hbalance w
        simp [opened, carried, Nat.add_mul] at hw ⊢
        omega
  | credited =>
      dsimp only
      cases hpost : s.core.post .mqtt false with
      | none =>
          refine ⟨{ h.accounts with balance := fun w => ?_ }, { h.closing with }⟩
          have hw := hbalance w
          simp [opened, carried] at hw ⊢
          omega
      | some core =>
          obtain ⟨hopen, hroom, rfl⟩ := TaskExecutor.post_eq_some hpost
          refine ⟨{ h.accounts with
            balance := fun w => ?_
            ordinary := ordinary_room hroom .mqtt },
            { h.closing.post .mqtt hopen rfl with }⟩
          have hw := hbalance w
          simp [opened, carried] at hw ⊢
          omega
  | refused =>
      -- the credit that goes back is among those in use
      have hpos : 0 < s.admitted := by
        have hcredits := hbalance Debt.credits
        simp [owing_zero] at hcredits
        omega
      refine ⟨{ h.accounts with
        balance := fun w => ?_
        budget := Nat.le_trans (Nat.sub_le _ _) h.accounts.budget }, { h.closing with }⟩
      have hw := hbalance w
      have hle : w .credit ≤ s.admitted * w .credit := Nat.le_mul_of_pos_left _ hpos
      simp [opened, carried, Nat.sub_one_mul] at hw ⊢
      omega

theorem telemetry (h : s.Inv) : s.telemetry.Inv := by
  unfold GatewayCore.telemetry
  split_ifs
  · exact ⟨{ h.accounts with }, { h.closing with }⟩
  · exact h

theorem postTelemetry (h : s.Inv) : s.postTelemetry.Inv := by
  unfold GatewayCore.postTelemetry
  cases hpost : s.core.post .telemetry false with
  | none => exact ⟨{ h.accounts with }, { h.closing with }⟩
  | some core =>
      obtain ⟨hopen, hroom, rfl⟩ := TaskExecutor.post_eq_some hpost
      refine ⟨{ h.accounts with
        balance := fun w => ?_
        ordinary := ordinary_room hroom .telemetry },
        { h.closing.post .telemetry hopen rfl with }⟩
      have hbalance := h.accounts.balance w
      simp only [opened, carried, Option.getD_some, owing_append, owing_cons, owing_nil,
        tally_nil, Task.debts] at hbalance ⊢
      omega

/-- An answer goes from the one who holds the command to the mailbox, or is dropped. -/
theorem answer (h : s.Inv) {id : RequestId} (hid : id ∈ s.held) : (s.answer id).Inv := by
  have hheld : ∀ w, owing (fun id => [.command id]) w s.held =
      w (.command id) + owing (fun id => [.command id]) w (s.held.erase id) := fun w => by
    simpa using owing_erase (fun id => [.command id]) w hid
  unfold GatewayCore.answer
  cases hpost : s.core.post (.answer id) true with
  | none =>
      refine ⟨{ h.accounts with balance := fun w => ?_ }, { h.closing with }⟩
      have hbalance := h.accounts.balance w
      simp [opened, carried, hheld w] at hbalance ⊢
      omega
  | some core =>
      obtain ⟨hopen, -, rfl⟩ := TaskExecutor.post_eq_some hpost
      refine ⟨{ h.accounts with
        balance := fun w => ?_
        ordinary := by
          rw [tally_append]
          exact h.accounts.ordinary },
        { h.closing.post (.answer id) hopen rfl with }⟩
      have hbalance := h.accounts.balance w
      simp [opened, carried, hheld w] at hbalance ⊢
      omega

theorem publicationDone (h : s.Inv) (hpublishing : 0 < s.publishing) :
    s.publicationDone.Inv := by
  have hpos : 0 < s.admitted := by
    have hcredits := h.accounts.balance Debt.credits
    simp [opened, carried, owing_zero] at hcredits
    omega
  refine ⟨{ h.accounts with
    balance := fun w => ?_
    budget := Nat.le_trans (Nat.sub_le _ _) h.accounts.budget }, { h.closing with }⟩
  have hw := h.accounts.balance w
  have hadmitted : w .credit ≤ s.admitted * w .credit := Nat.le_mul_of_pos_left _ hpos
  have hdone : w .credit ≤ s.publishing * w .credit := Nat.le_mul_of_pos_left _ hpublishing
  simp only [opened, carried, GatewayCore.publicationDone, Nat.sub_one_mul] at hw ⊢
  omega

/-! ## The core worker -/

/-- A reply is the only debt left of its task. -/
theorem reply (h : s.Inv) {id : Nat} (hdebts : s.work.debts = [.reply id])
    (hbarriers : s.work.barriers = 0) (hbusy : s.work.isExited = false) (response : HttpResponse) :
    (s.reply id response).Inv := by
  refine ⟨{ h.accounts with balance := fun w => ?_ },
    { h.closing.work .idle hbusy hbarriers.symm rfl with }⟩
  have hbalance := h.accounts.balance w
  rw [carried, hdebts] at hbalance
  simp only [opened, carried, GatewayCore.reply, Work.debts, owing_append, owing_cons, owing_nil,
    tally_cons, tally_nil, weigh_some] at hbalance ⊢
  omega

/-- The end of a query, with its reply. -/
theorem queryEnd (h : s.Inv) {id : Nat} (hdebts : s.work.debts = [.reply id, .query])
    (hbarriers : s.work.barriers = 0) (hbusy : s.work.isExited = false) (response : HttpResponse) :
    ({ s with queries := s.queries - 1 }.reply id response).Inv := by
  have hlimit := h.accounts.queries
  have hcount := h.accounts.queries_eq
  rw [hdebts] at hcount
  simp only [tally_cons, tally_nil, weigh_some, Debt.queries] at hcount
  refine ⟨{ h.accounts with balance := fun w => ?_, queries := ?_ },
    { h.closing.work .idle hbusy hbarriers.symm rfl with }⟩
  · have hbalance := h.accounts.balance w
    rw [carried, hdebts] at hbalance
    have htoNat : s.queries.toNat = (s.queries - 1).toNat + 1 := by omega
    simp only [opened, carried, GatewayCore.reply, Work.debts, owing_append, owing_cons, owing_nil,
      tally_cons, tally_nil, weigh_some, htoNat, Nat.add_mul] at hbalance ⊢
    omega
  · show 0 ≤ s.queries - 1 ∧ s.queries - 1 ≤ kMaxQueries
    omega

theorem handleHttp (h : s.Inv) (outside : Outside δ) {id : Nat} {request : HttpRequest}
    (hwork : s.work = .task (.http id request)) : (s.handleHttp asset outside id request).Inv := by
  have hdebts : s.work.debts = [.reply id] := by rw [hwork]; rfl
  have hbarriers : s.work.barriers = 0 := by rw [hwork]; rfl
  have hbusy : s.work.isExited = false := by rw [hwork]; rfl
  unfold GatewayCore.handleHttp
  cases routeHttp asset outside.config request with
  | error response => exact h.reply hdebts hbarriers hbusy response
  | ok query =>
      dsimp only
      by_cases hfull : s.queries ≥ kMaxQueries
      · rw [if_pos hfull]
        exact h.reply hdebts hbarriers hbusy queryQueueFull
      · rw [if_neg hfull]
        cases outside.database with
        | none => exact h.reply hdebts hbarriers hbusy databaseUnavailable
        | some db =>
            -- one more query is in progress
            have hlimit := h.accounts.queries
            refine ⟨{ h.accounts with balance := fun w => ?_, queries := ?_ },
              { h.closing.work (.query ⟨id, db, query.1, query.2⟩) hbusy hbarriers.symm rfl
                with }⟩
            · have hbalance := h.accounts.balance w
              rw [carried, hdebts] at hbalance
              have htoNat : (s.queries + 1).toNat = s.queries.toNat + 1 := by omega
              simp only [opened, carried, Work.debts, QueryTask.debts, tally_cons, tally_nil,
                weigh_some, htoNat, Nat.add_mul] at hbalance ⊢
              omega
            · show 0 ≤ s.queries + 1 ∧ s.queries + 1 ≤ kMaxQueries
              omega

/-- A query goes to the query executor, or is answered at once when that is closed. -/
theorem postQuery (h : s.Inv) {q : QueryTask δ} (hwork : s.work = .query q) :
    (s.postQuery q).Inv := by
  have hdebts : s.work.debts = [.reply q.id, .query] := by rw [hwork]; rfl
  have hbarriers : s.work.barriers = 0 := by rw [hwork]; rfl
  have hbusy : s.work.isExited = false := by rw [hwork]; rfl
  unfold GatewayCore.postQuery
  cases hpost : s.query.post q false with
  | none => exact h.queryEnd hdebts hbarriers hbusy queryQueueFull
  | some query =>
      obtain ⟨hopen, -, rfl⟩ := TaskExecutor.post_eq_some hpost
      refine ⟨{ h.accounts with balance := fun w => ?_ },
        { h.closing.work .idle hbusy hbarriers.symm rfl with
          queryExited := fun hexited => ?_ }⟩
      · have hbalance := h.accounts.balance w
        rw [carried, hdebts] at hbalance
        simp only [opened, carried, Work.debts, QueryTask.debts, owing_append, owing_cons,
          owing_nil, tally_cons, tally_nil, weigh_some] at hbalance ⊢
        omega
      · have hclosed := (h.closing.queryExited hexited).1
        rw [hopen] at hclosed
        exact absurd hclosed Bool.false_ne_true

/-- A command becomes pending with its credit. -/
theorem handleMqtt (h : s.Inv) (translated : Bool) (hwork : s.work = .task .mqtt) :
    (s.handleMqtt translated).Inv := by
  have hdebts : s.work.debts = [.credit] := by rw [hwork]; rfl
  have hbarriers : s.work.barriers = 0 := by rw [hwork]; rfl
  have hbusy : s.work.isExited = false := by rw [hwork]; rfl
  unfold GatewayCore.handleMqtt
  split_ifs
  · have hnew : s.nextId ∉ s.pending := fun hmem => Nat.lt_irrefl _ (h.accounts.ids _ hmem)
    refine ⟨{ h.accounts with balance := fun w => ?_, ids := fun id hid => ?_ },
      { h.closing.work (.submit s.nextId) hbusy hbarriers.symm rfl with }⟩
    · have hbalance := h.accounts.balance w
      rw [carried, hdebts] at hbalance
      simp only [opened, carried, Work.debts, List.insert_of_not_mem hnew, owing_cons,
        tally_cons, tally_nil, weigh_some] at hbalance ⊢
      omega
    · rcases List.mem_insert_iff.mp hid with rfl | hid
      · exact Nat.lt_succ_self _
      · exact Nat.lt_succ_of_lt (h.accounts.ids id hid)
  · refine ⟨{ h.accounts with balance := fun w => ?_ },
      { h.closing.work .publish hbusy hbarriers.symm rfl with }⟩
    have hbalance := h.accounts.balance w
    rw [carried, hdebts] at hbalance
    exact hbalance

/-- A pending command ends; its credit goes with the publication. -/
theorem endCommand (h : s.Inv) {id : RequestId} (hdebts : s.work.debts = [.command id])
    (hbarriers : s.work.barriers = 0) (hbusy : s.work.isExited = false) :
    (s.endCommand id).Inv := by
  -- what the worker has to end is pending
  have hmem : id ∈ s.pending := h.accounts.pending_of_work hdebts
  unfold GatewayCore.endCommand
  rw [if_pos hmem]
  refine ⟨{ h.accounts with
    balance := fun w => ?_
    ids := fun id' hid' => h.accounts.ids id' (List.mem_of_mem_erase hid') },
    { h.closing.work .publish hbusy hbarriers.symm rfl with }⟩
  have hbalance := h.accounts.balance w
  rw [carried, hdebts] at hbalance
  have hcommand := owing_erase (fun id => [.command id]) w hmem
  have hcredit := owing_erase (fun _ => [.credit]) w hmem
  simp only [opened, carried, Work.debts, tally_cons, tally_nil, weigh_some]
    at hbalance hcommand hcredit ⊢
  omega

/-- The barrier is reached; there is no other. -/
theorem barrier (h : s.Inv) (hwork : s.work = .task .barrier) :
    Inv { s with reached := true, work := .idle } := by
  have hdebts : s.work.debts = [] := by rw [hwork]; rfl
  have hbusy : s.work.isExited = false := by rw [hwork]; rfl
  refine ⟨{ h.accounts with balance := fun w => ?_ }, { h.closing with
    barrier := ?_
    coreExited := fun hexited => by cases hexited
    coreOver := fun hrank => absurd hrank (Nat.not_le.mpr (h.closing.working hbusy)) }⟩
  · have hbalance := h.accounts.balance w
    rw [carried, hdebts] at hbalance
    exact hbalance
  · have hone := h.closing.barrier
    rw [hwork] at hone
    simp only [Work.barriers, Task.barriers, Bool.toNat_true] at hone ⊢
    split_ifs at hone ⊢ <;> omega

theorem runTask (h : s.Inv) (outside : Outside δ) {t : Task ν} (hwork : s.work = .task t) :
    (s.runTask asset formatValue outside t).Inv := by
  have hbusy : s.work.isExited = false := by rw [hwork]; rfl
  cases t with
  | mqtt => exact h.handleMqtt outside.translated hwork
  | telemetry =>
      refine ⟨{ h.accounts with balance := fun w => ?_ },
        { h.closing.work .idle hbusy (by rw [hwork]; rfl) rfl with }⟩
      have hbalance := h.accounts.balance w
      rw [carried, hwork] at hbalance
      exact hbalance
  | http id request => exact h.handleHttp outside hwork
  | answer id => exact h.endCommand (by rw [hwork]; rfl) (by rw [hwork]; rfl) hbusy
  | queryDone id rows => exact h.queryEnd (by rw [hwork]; rfl) (by rw [hwork]; rfl) hbusy _
  | barrier => exact h.barrier hwork

/-- The next task, or the end. -/
theorem takeTask (h : s.Inv) {t : Task ν} {rest : List (Task ν)} (hwork : s.work = .idle)
    (htasks : s.core.tasks = t :: rest) :
    Inv { s with core := { s.core with tasks := rest }, work := .task t } := by
  have hbusy : s.work.isExited = false := by rw [hwork]; rfl
  refine ⟨{ h.accounts with balance := fun w => ?_, ordinary := ?_ }, { h.closing with
    barrier := ?_
    coreExited := fun hexited => by cases hexited
    coreOver := fun hrank => absurd hrank (Nat.not_le.mpr (h.closing.working hbusy)) }⟩
  · have hbalance := h.accounts.balance w
    rw [carried, hwork, htasks] at hbalance
    simp only [opened, carried, Work.debts, owing_cons, tally_nil] at hbalance ⊢
    omega
  · have hordinary := h.accounts.ordinary
    rw [htasks, tally_cons] at hordinary
    exact Nat.le_trans (Nat.le_add_left _ _) hordinary
  · have hone := h.closing.barrier
    rw [hwork, htasks, tally_cons, weigh_some] at hone
    simp only [Work.barriers] at hone ⊢
    omega

theorem coreExit (h : s.Inv) (hwork : s.work = .idle) (htasks : s.core.tasks = [])
    (hclosed : s.core.closed = true) : Inv { s with work := .exited } := by
  refine ⟨{ h.accounts with balance := fun w => ?_ }, { h.closing with
    barrier := ?_
    coreExited := fun _ => ⟨hclosed, htasks⟩
    coreOver := fun _ => rfl }⟩
  · have hbalance := h.accounts.balance w
    rw [carried, hwork] at hbalance
    exact hbalance
  · have hone := h.closing.barrier
    rw [hwork] at hone
    exact hone

/-- A command goes to the one who will answer it. -/
theorem submit (h : s.Inv) {id : RequestId} (hwork : s.work = .submit id) (submitted : Bool) :
    Inv (if submitted then { s with held := s.held ++ [id], work := .idle }
      else s.endCommand id) := by
  have hdebts : s.work.debts = [.command id] := by rw [hwork]; rfl
  have hbarriers : s.work.barriers = 0 := by rw [hwork]; rfl
  have hbusy : s.work.isExited = false := by rw [hwork]; rfl
  split_ifs
  · refine ⟨{ h.accounts with balance := fun w => ?_ },
      { h.closing.work .idle hbusy hbarriers.symm rfl with }⟩
    have hbalance := h.accounts.balance w
    rw [carried, hdebts] at hbalance
    simp only [opened, carried, Work.debts, owing_append, owing_cons, owing_nil, tally_cons,
      tally_nil, weigh_some] at hbalance ⊢
    omega
  · exact h.endCommand hdebts hbarriers hbusy

/-- A publication has the credit until it is done. -/
theorem publish (h : s.Inv) (hwork : s.work = .publish) (published : Bool) :
    Inv (if published then { s with publishing := s.publishing + 1, work := .idle }
      else { s with work := .release }) := by
  have hdebts : s.work.debts = [.credit] := by rw [hwork]; rfl
  have hbarriers : s.work.barriers = 0 := by rw [hwork]; rfl
  have hbusy : s.work.isExited = false := by rw [hwork]; rfl
  split_ifs
  · refine ⟨{ h.accounts with balance := fun w => ?_ },
      { h.closing.work .idle hbusy hbarriers.symm rfl with }⟩
    have hbalance := h.accounts.balance w
    rw [carried, hdebts] at hbalance
    simp only [opened, carried, Work.debts, tally_cons, tally_nil, weigh_some, Nat.add_mul]
      at hbalance ⊢
    omega
  · refine ⟨{ h.accounts with balance := fun w => ?_ },
      { h.closing.work .release hbusy hbarriers.symm rfl with }⟩
    have hbalance := h.accounts.balance w
    rw [carried, hdebts] at hbalance
    exact hbalance

theorem release (h : s.Inv) (hwork : s.work = .release) :
    Inv { s with admitted := s.admitted - 1, work := .idle } := by
  have hdebts : s.work.debts = [.credit] := by rw [hwork]; rfl
  have hbusy : s.work.isExited = false := by rw [hwork]; rfl
  have hpos : 0 < s.admitted := by
    have hcredits := h.accounts.balance Debt.credits
    rw [carried, hdebts] at hcredits
    simp [opened, owing_zero] at hcredits
    omega
  refine ⟨{ h.accounts with
    balance := fun w => ?_
    budget := Nat.le_trans (Nat.sub_le _ _) h.accounts.budget },
    { h.closing.work .idle hbusy (by rw [hwork]; rfl) rfl with }⟩
  have hw := h.accounts.balance w
  rw [carried, hdebts] at hw
  have hle : w .credit ≤ s.admitted * w .credit := Nat.le_mul_of_pos_left _ hpos
  simp only [opened, carried, Work.debts, tally_cons, tally_nil, weigh_some, Nat.sub_one_mul]
    at hw ⊢
  omega

theorem coreStep (h : s.Inv) (outside : Outside δ) :
    (s.coreStep asset formatValue outside).Inv := by
  unfold GatewayCore.coreStep
  cases hwork : s.work with
  | idle =>
      cases htasks : s.core.tasks with
      | cons t rest => exact h.takeTask hwork htasks
      | nil =>
          dsimp only
          by_cases hclosed : s.core.closed = true
          · rw [if_pos hclosed]
            exact h.coreExit hwork htasks hclosed
          · rw [if_neg hclosed]
            exact h
  | task t => exact h.runTask outside hwork
  | submit id => exact h.submit hwork outside.submitted
  | publish => exact h.publish hwork outside.published
  | release => exact h.release hwork
  | query q => exact h.postQuery hwork
  | exited => exact h

/-! ## The query worker and the owner -/

/-- The core is not closed before the query worker is gone. -/
theorem core_open (h : s.Inv) (hbusy : s.queryWork.isExited = false) :
    s.stage.rank < 4 ∧ s.core.closed = false := by
  have hrank : s.stage.rank < 4 := by
    by_contra hrank
    have hover := h.closing.queryOver (Nat.not_lt.mp hrank)
    rw [hbusy] at hover
    exact Bool.false_ne_true hover
  refine ⟨hrank, ?_⟩
  rw [Bool.eq_false_iff, ne_eq, h.closing.core]
  exact Nat.not_le.mpr hrank

theorem queryStep (h : s.Inv) (rows : Option (List (DataRow ν))) : (s.queryStep rows).Inv := by
  unfold GatewayCore.queryStep
  cases hwork : s.queryWork with
  | exited => exact h
  | idle =>
      have hidle : s.queryWork.isExited = false := by rw [hwork]; rfl
      cases htasks : s.query.tasks with
      | cons q rest =>
          refine ⟨{ h.accounts with balance := fun w => ?_ }, { h.closing with
            queryExited := fun hexited => by cases hexited
            queryOver := fun hrank => ?_ }⟩
          · have hbalance := h.accounts.balance w
            rw [carried, hwork, htasks] at hbalance
            simp only [opened, carried, QueryWork.debts, owing_cons, tally_nil] at hbalance ⊢
            omega
          · have hover := h.closing.queryOver hrank
            rw [hidle] at hover
            exact absurd hover Bool.false_ne_true
      | nil =>
          dsimp only
          by_cases hclosed : s.query.closed = true
          · rw [if_pos hclosed]
            refine ⟨{ h.accounts with balance := fun w => ?_ }, { h.closing with
              queryExited := fun _ => ⟨hclosed, htasks⟩
              queryOver := fun _ => rfl }⟩
            have hbalance := h.accounts.balance w
            rw [carried, hwork] at hbalance
            exact hbalance
          · rw [if_neg hclosed]
            exact h
  | running q =>
      have hbusy : s.queryWork.isExited = false := by rw [hwork]; rfl
      obtain ⟨hrank, hopen⟩ := h.core_open hbusy
      dsimp only
      rw [h.core_takes hopen, Option.getD_some]
      refine ⟨{ h.accounts with
        balance := fun w => ?_
        ordinary := by
          rw [tally_append]
          exact h.accounts.ordinary },
        { h.closing.post (.queryDone q.id rows) hopen rfl with
          queryExited := fun hexited => by cases hexited
          queryOver := fun hover => absurd hover (Nat.not_le.mpr hrank) }⟩
      have hbalance := h.accounts.balance w
      rw [carried, hwork] at hbalance
      simp only [opened, carried, QueryWork.debts, QueryTask.debts, Task.debts, owing_append,
        owing_cons, owing_nil, tally_cons, tally_nil, weigh_some] at hbalance ⊢
      omega

/-- Where only the stage changes, the stages in between decide. -/
theorem stage (h : s.Inv) (stage : Stage) (accepting : Bool)
    (hbarrier : 2 ≤ stage.rank ↔ 2 ≤ s.stage.rank) (hquery : 3 ≤ stage.rank ↔ 3 ≤ s.stage.rank)
    (hcore : 4 ≤ stage.rank ↔ 4 ≤ s.stage.rank)
    (hover : 5 ≤ stage.rank → s.work.isExited = true) :
    Inv { s with stage := stage, accepting := accepting } := by
  refine ⟨{ h.accounts with }, { h.closing with
    barrier := ?_
    query := h.closing.query.trans hquery.symm
    core := h.closing.core.trans hcore.symm
    queryOver := fun hrank => h.closing.queryOver (hcore.mp hrank)
    coreOver := hover }⟩
  simp only [hbarrier]
  exact h.closing.barrier

/-- The barrier is the last of the reserved tasks. -/
theorem postBarrier (h : s.Inv) (hstage : s.stage = .closing) :
    Inv { s with
      stage := .awaiting
      core := { s.core with tasks := s.core.tasks ++ [.barrier] } } := by
  have hone := h.closing.barrier
  have hopen : s.core.closed = false := by
    rw [Bool.eq_false_iff, ne_eq, h.closing.core, hstage]
    decide
  refine ⟨{ h.accounts with balance := fun w => ?_, ordinary := ?_ },
    { h.closing with
      barrier := ?_
      query := by
        rw [h.closing.query, hstage]
        simp [Stage.rank]
      core := by
        rw [h.closing.core, hstage]
        simp [Stage.rank]
      coreExited := fun hexited => ?_
      queryOver := fun hrank => by simp [Stage.rank] at hrank
      coreOver := fun hrank => by simp [Stage.rank] at hrank }⟩
  · have hbalance := h.accounts.balance w
    simp only [opened, carried, owing_append, owing_cons, owing_nil, tally_nil, Task.debts]
      at hbalance ⊢
    omega
  · rw [tally_append]
    exact h.accounts.ordinary
  · rw [hstage, if_neg (by decide)] at hone
    rw [if_pos (show 2 ≤ Stage.awaiting.rank by decide), tally_append]
    show tally some Task.barriers s.core.tasks + 1 + s.work.barriers + s.reached.toNat = 1
    omega
  · have hclosed := (h.closing.coreExited hexited).1
    rw [hopen] at hclosed
    exact absurd hclosed Bool.false_ne_true

theorem closeQueries (h : s.Inv) (hstage : s.stage = .awaiting) :
    Inv { s with stage := .joiningQueries, query := { s.query with closed := true } } := by
  have hone := h.closing.barrier
  rw [hstage] at hone
  exact ⟨{ h.accounts with }, { h.closing with
    barrier := hone
    query := iff_of_true rfl (by simp [Stage.rank])
    core := by
      rw [h.closing.core, hstage]
      simp [Stage.rank]
    queryExited := fun hexited => ⟨rfl, (h.closing.queryExited hexited).2⟩
    queryOver := fun hrank => by simp [Stage.rank] at hrank
    coreOver := fun hrank => by simp [Stage.rank] at hrank }⟩

theorem closeCore (h : s.Inv) (hstage : s.stage = .joiningQueries)
    (hexited : s.queryWork.isExited = true) :
    Inv { s with stage := .joiningCore, core := { s.core with closed := true } } := by
  have hone := h.closing.barrier
  rw [hstage] at hone
  exact ⟨{ h.accounts with }, { h.closing with
    barrier := hone
    query := by
      rw [h.closing.query, hstage]
      simp [Stage.rank]
    core := iff_of_true rfl (by simp [Stage.rank])
    coreExited := fun hwork => ⟨rfl, (h.closing.coreExited hwork).2⟩
    queryOver := fun _ => hexited
    coreOver := fun hrank => by simp [Stage.rank] at hrank }⟩

theorem stop (h : s.Inv) : s.stop.Inv := by
  unfold GatewayCore.stop
  cases hstage : s.stage with
  | running =>
      refine h.stage .closing false ?_ ?_ ?_ fun hrank => absurd hrank (by decide)
      all_goals rw [hstage]; decide
  | closing =>
      have hopen : s.core.closed = false := by
        rw [Bool.eq_false_iff, ne_eq, h.closing.core, hstage]
        decide
      dsimp only
      rw [h.core_takes hopen]
      exact h.postBarrier hstage
  | awaiting =>
      dsimp only
      by_cases hreached : s.reached = true
      · rw [if_pos hreached]
        exact h.closeQueries hstage
      · rw [if_neg hreached]
        exact h
  | joiningQueries =>
      dsimp only
      by_cases hexited : s.queryWork.isExited = true
      · rw [if_pos hexited]
        exact h.closeCore hstage hexited
      · rw [if_neg hexited]
        exact h
  | joiningCore =>
      dsimp only
      by_cases hexited : s.work.isExited = true
      · rw [if_pos hexited]
        refine h.stage .done s.accepting ?_ ?_ ?_ fun _ => hexited
        all_goals rw [hstage]; decide
      · rw [if_neg hexited]
        exact h
  | done => exact h

end Inv

/-! ## Runs -/

theorem inv_step {s' : GatewayCore δ ν} (h : Step asset formatValue s s') (hinv : s.Inv) :
    s'.Inv := by
  cases h with
  | http request => exact hinv.httpRequest request
  | postHttp before id request after hcalls => exact hinv.postHttp hcalls
  | mqtt => exact hinv.mqttMessage
  | mqttCall before stage after hcalls => exact hinv.mqttCall hcalls
  | telemetry => exact hinv.telemetry
  | postTelemetry hcalls => exact hinv.postTelemetry
  | answer id hid => exact hinv.answer hid
  | done hpublishing => exact hinv.publicationDone hpublishing
  | core outside => exact hinv.coreStep outside
  | query rows => exact hinv.queryStep rows
  | stop => exact hinv.stop

theorem inv_run (h : Run asset formatValue {} s) : s.Inv := by
  induction h with
  | refl => exact inv_init
  | tail _ hstep ih => exact inv_step hstep ih

/-! ## The end of `stop` -/

/-- A request that was accepted is one. -/
theorem Inv.accepted_nodup (h : s.Inv) : s.accepted.Nodup := by
  rw [List.nodup_iff_count_le_one]
  intro id
  have hfresh := h.accounts.fresh id
  rw [List.count_append] at hfresh
  split_ifs at hfresh <;> omega

/-- Where the accepted requests are. -/
theorem Accounts.replies_eq (h : s.Accounts) (w : Nat → Nat) :
    tally some w s.accepted = owing Task.debts (Debt.replies w) s.core.tasks +
      tally some (Debt.replies w) s.work.debts +
      owing QueryTask.debts (Debt.replies w) s.query.tasks +
      tally some (Debt.replies w) s.queryWork.debts + tally some w (s.replies.map Prod.fst) := by
  have hbalance := h.balance (Debt.replies w)
  have hstages : owing stageDebts (Debt.replies w) s.mqttCalls = 0 :=
    owing_zero (fun c => by cases c <;> rfl) _
  have hcredits : owing (fun _ => [.credit]) (Debt.replies w) s.pending = 0 :=
    owing_zero (by simp) _
  have hcommands : ∀ ids : List RequestId,
      owing (fun id => [.command id]) (Debt.replies w) ids = 0 := owing_zero (by simp)
  rw [opened, carried, hstages, hcredits, hcommands, hcommands, hcommands,
    owing_replies (fun id => id), owing_replies Prod.fst, List.map_id'] at hbalance
  simp only [Debt.replies] at hbalance
  omega

/-- A request gets a reply only when it was accepted, and at most one. -/
theorem Accounts.replies_le (h : s.Accounts) (id : Nat) :
    (s.replies.map Prod.fst).count id ≤ s.accepted.count id := by
  have hreplies := h.replies_eq fun id' => if id' = id then 1 else 0
  rw [tally_count, tally_count] at hreplies
  omega

/-- At the end nothing is left in the mailboxes or with the workers. -/
theorem Inv.settled (h : s.Inv) (hdone : s.stage = .done) :
    s.core.tasks = [] ∧ s.work = .exited ∧ s.query.tasks = [] ∧ s.queryWork = .exited := by
  have hcore := h.closing.coreOver (by rw [hdone]; decide)
  have hquery := h.closing.queryOver (by rw [hdone]; decide)
  refine ⟨(h.closing.coreExited hcore).2, ?_, (h.closing.queryExited hquery).2, ?_⟩
  · cases hwork : s.work with
    | exited => rfl
    | _ => rw [hwork] at hcore; cases hcore
  · cases hwork : s.queryWork with
    | exited => rfl
    | _ => rw [hwork] at hquery; cases hquery

theorem Inv.answered (h : s.Inv) (hdone : s.stage = .done) :
    (s.replies.map Prod.fst).Perm s.accepted ∧ s.queries = 0 := by
  obtain ⟨htasks, hwork, hqueries, hquery⟩ := h.settled hdone
  constructor
  · refine perm_of_tally fun w => ?_
    have hreplies := h.accounts.replies_eq w
    rw [htasks, hwork, hqueries, hquery] at hreplies
    simpa using hreplies.symm
  · have hcount := h.accounts.queries_eq
    have hnonneg := h.accounts.queries.1
    rw [htasks, hwork, hqueries, hquery] at hcount
    simp only [owing_nil, Work.debts, QueryWork.debts, tally_nil, List.length_nil] at hcount
    omega

end GatewayCore

end EdgeGateway
