import EdgeGateway.App.Admission
import EdgeGateway.Basic.Steps
import Mathlib.Data.Prod.Lex

set_option autoImplicit false

/-! # The shutdown comes to its end

From every state that is reached, the threads can go on until the main thread has joined them all:
in each phase the thread that is waited for has a step that leaves it less to do, and the main
thread goes on when nothing is left.
-/

namespace EdgeGateway

/-! ## What is left to do -/

/-- Steps left for a task, once it is taken. -/
def CoreTask.cost : CoreTask → Nat
  | .mqtt _ _ _ => 5
  | .telemetry readings => readings.length + 3
  | _ => 3

def CoreWork.cost : CoreWork → Nat
  | .idle => 1
  | .task t => t.cost
  | .submit _ _ => 4
  | .push _ _ => 3
  | .publish _ => 2
  | .uplink readings => readings.length + 2
  | .query => 2
  | .exited => 0

def QueryWork.cost : QueryWork → Nat
  | .idle => 1
  | .running => 2
  | .exited => 0

def ManageWork.cost : ManageWork → Nat
  | .idle => 1
  | .task _ => 3
  | .release _ => 2
  | .exited => 0

def MqttStage.cost : MqttStage → Nat
  | .called => 4
  | .checked => 3
  | .credited => 2
  | .refused => 1

attribute [simp] CoreTask.cost CoreWork.cost QueryWork.cost ManageWork.cost MqttStage.cost

namespace Gateway

variable {s : Gateway} {text : CoreText}

def coreCost (s : Gateway) : Nat := tally some CoreTask.cost s.core.tasks + s.coreWork.cost

def queryCost (s : Gateway) : Nat := 2 * s.query.tasks.length + s.queryWork.cost

def manageCost (s : Gateway) : Nat := 3 * s.manage.tasks.length + s.manageWork.cost

def mqttCost (s : Gateway) : Nat := tally some (fun c => c.stage.cost) s.calls

/-- What the main thread waits for. -/
def load (s : Gateway) : Nat :=
  match s.phase with
  | .draining => 2 * s.cmdQueue.length + s.held.length
  | .awaiting => s.coreCost
  | .closingQueries => s.queryCost
  | .closingCore => s.coreCost
  | .closingManage => s.manageCost
  | .joiningMqtt => s.mqttCost
  | _ => 0

/-! ## Each thread -/

/-- The core worker has got ahead of this cost; its mailbox and the phase are as before. -/
structure Ahead (s s' : Gateway) (cost : Nat) : Prop where
  tasks : s'.core.tasks = s.core.tasks
  work : s'.coreWork.cost < cost
  phase : s'.phase = s.phase

theorem endRequest_ahead (id : RequestId) (message : String × String) :
    s.Ahead (s.endRequest id message) 3 := by
  unfold endRequest
  cases takeKey id s.pending with
  | none => exact ⟨rfl, by simp, rfl⟩
  | some r => exact ⟨rfl, by simp, rfl⟩

theorem runCoreTask_ahead (t : CoreTask) : s.Ahead (s.runCoreTask text t) t.cost := by
  cases t with
  | mqtt msg topic payload =>
      unfold runCoreTask handleMqtt
      dsimp only
      split
      · exact ⟨rfl, by simp, rfl⟩
      · exact ⟨rfl, by simp, rfl⟩
  | telemetry readings => exact ⟨rfl, by simp [runCoreTask], rfl⟩
  | http query =>
      unfold runCoreTask handleHttp
      dsimp only
      split_ifs
      · exact ⟨rfl, by simp, rfl⟩
      · exact ⟨rfl, by simp, rfl⟩
  | answer call =>
      cases call with
      | finished id result => exact endRequest_ahead id _
      | rejected id error => exact endRequest_ahead id _
  | queryDone => exact ⟨rfl, by simp [runCoreTask], rfl⟩
  | barrier => exact ⟨rfl, by simp [runCoreTask], rfl⟩

theorem publishCommand_ahead (p : Publication) : s.Ahead (s.publishCommand p) 2 := by
  unfold publishCommand
  cases s.manage.post (.terminal p) true with
  | none => exact ⟨rfl, by simp, rfl⟩
  | some manage => exact ⟨rfl, by simp, rfl⟩

theorem pushCommand_ahead (id : RequestId) (cmd : DownCmd) :
    s.Ahead (s.pushCommand id cmd) 3 := by
  unfold pushCommand
  split_ifs
  · exact endRequest_ahead id _
  · exact ⟨rfl, by simp, rfl⟩

theorem publishUplink_ahead (readings : List (String × String)) :
    s.Ahead (s.publishUplink readings) (readings.length + 2) := by
  cases readings with
  | nil => exact ⟨rfl, by simp [publishUplink], rfl⟩
  | cons reading rest => exact ⟨rfl, by simp [publishUplink], rfl⟩

theorem postQuery_ahead : s.Ahead s.postQuery 2 := by
  unfold postQuery
  cases s.query.post () false with
  | none => exact ⟨rfl, by simp, rfl⟩
  | some query => exact ⟨rfl, by simp, rfl⟩

theorem Ahead.coreCost_lt {s' : Gateway} {cost : Nat} (h : s.Ahead s' cost)
    (hcost : s.coreWork.cost = cost) : s'.coreCost < s.coreCost ∧ s'.phase = s.phase := by
  refine ⟨?_, h.phase⟩
  rw [coreCost, coreCost, h.tasks, hcost]
  exact Nat.add_lt_add_left h.work _

/-- The core worker gets ahead, unless it has to wait for a task. -/
theorem coreStep_cost (text : CoreText) (hwork : s.coreWork ≠ .exited)
    (hready : s.coreWork = .idle → s.core.tasks ≠ [] ∨ s.core.closed = true) :
    (s.coreStep text).coreCost < s.coreCost ∧ (s.coreStep text).phase = s.phase := by
  unfold coreStep
  cases hcase : s.coreWork with
  | idle =>
      dsimp only
      cases htasks : s.core.tasks with
      | cons t rest =>
          simp [coreCost, htasks, hcase]
          omega
      | nil =>
          rcases hready hcase with hne | hclosed
          · exact absurd htasks hne
          · simp [coreCost, hclosed, hcase]
  | task t => exact (runCoreTask_ahead t).coreCost_lt (by rw [hcase]; rfl)
  | submit id cmd =>
      dsimp only
      split_ifs
      · have hahead := endRequest_ahead (s := s) id ("gateway/ack/rejected", "gateway_busy")
        have hfour : s.Ahead _ 4 := { hahead with work := Nat.lt_succ_of_lt hahead.work }
        exact hfour.coreCost_lt (by rw [hcase]; rfl)
      · have hfour : s.Ahead { s with coreWork := .push id cmd } 4 := ⟨rfl, by simp, rfl⟩
        exact hfour.coreCost_lt (by rw [hcase]; rfl)
  | push id cmd => exact (pushCommand_ahead id cmd).coreCost_lt (by rw [hcase]; rfl)
  | publish p => exact (publishCommand_ahead p).coreCost_lt (by rw [hcase]; rfl)
  | uplink readings => exact (publishUplink_ahead readings).coreCost_lt (by rw [hcase]; rfl)
  | query => exact postQuery_ahead.coreCost_lt (by rw [hcase]; rfl)
  | exited => exact absurd hcase hwork

theorem queryStep_cost (hwork : s.queryWork ≠ .exited)
    (hready : s.queryWork = .idle → s.query.tasks ≠ [] ∨ s.query.closed = true) :
    s.queryStep.queryCost < s.queryCost ∧ s.queryStep.phase = s.phase := by
  unfold queryStep
  cases hcase : s.queryWork with
  | idle =>
      dsimp only
      cases htasks : s.query.tasks with
      | cons t rest =>
          simp [queryCost, htasks, hcase]
          omega
      | nil =>
          rcases hready hcase with hne | hclosed
          · exact absurd htasks hne
          · simp [queryCost, hclosed, hcase]
  | running =>
      dsimp only
      cases s.core.post .queryDone true <;> simp [queryCost, hcase]
  | exited => exact absurd hcase hwork

theorem manageStep_cost (hwork : s.manageWork ≠ .exited)
    (hready : s.manageWork = .idle → s.manage.tasks ≠ [] ∨ s.manage.closed = true) :
    s.manageStep.manageCost < s.manageCost ∧ s.manageStep.phase = s.phase := by
  unfold manageStep
  cases hcase : s.manageWork with
  | idle =>
      dsimp only
      cases htasks : s.manage.tasks with
      | cons t rest =>
          simp [manageCost, htasks, hcase]
          omega
      | nil =>
          rcases hready hcase with hne | hclosed
          · exact absurd htasks hne
          · simp [manageCost, hclosed, hcase]
  | task t => cases t <;> simp [runManageTask, manageCost, hcase]
  | release msg => simp [manageCost, hcase, releaseCommand]
  | exited => exact absurd hcase hwork

/-- The call that came first goes on. -/
theorem mqttStep_cost (hcalls : s.calls ≠ []) :
    (s.mqttStep 0).mqttCost < s.mqttCost ∧ (s.mqttStep 0).phase = s.phase := by
  obtain ⟨c, behind, hcalls⟩ := List.exists_cons_of_ne_nil hcalls
  have hcall : (s.callStep c).2.phase = s.phase ∧
      tally some (fun c => c.stage.cost) (s.callStep c).1.toList < c.stage.cost := by
    unfold callStep
    cases c.stage with
    | called =>
        dsimp only
        split_ifs <;> simp
    | checked =>
        dsimp only
        split_ifs <;> simp
    | credited =>
        dsimp only
        cases s.core.post (.mqtt c.msg c.topic c.payload) false <;> simp
    | refused => simp [releaseCommand]
  simp only [mqttStep, hcalls, pick, mqttCost, tally_append, tally_nil, tally_cons, weigh_some]
  exact ⟨by omega, hcall.1⟩

/-! ## The main thread -/

/-- While the main thread waits for the barrier, the core worker has it or is still to take it. -/
theorem Inv.awaiting_cost (h : s.Inv) (text : CoreText) (hphase : s.phase = .awaiting)
    (hreached : s.reached = false) :
    (s.coreStep text).coreCost < s.coreCost ∧ (s.coreStep text).phase = s.phase := by
  apply coreStep_cost
  · intro hwork
    have hclosed := (h.closing.coreExited hwork).1
    rw [h.closing.core, hphase] at hclosed
    cases hclosed
  · intro hwork
    refine Or.inl fun htasks => ?_
    have hbarrier := h.rooms.barrier
    rw [hwork, htasks, hphase, hreached] at hbarrier
    cases hbarrier

/-- The thread that the main thread waits for gets ahead. -/
theorem forward_of_cost {phase : Phase} {a : GatewayAction} {cost : Gateway → Nat}
    (hphase : s.phase = phase) (hload : ∀ u : Gateway, u.phase = phase → u.load = cost u)
    (h : cost (s.step text a) < cost s ∧ (s.step text a).phase = s.phase) : ∃ a,
    phase.rank < (s.step text a).phase.rank ∨
      ((s.step text a).phase = phase ∧ (s.step text a).load < s.load) := by
  have hsame : (s.step text a).phase = phase := h.2.trans hphase
  refine ⟨a, Or.inr ⟨hsame, ?_⟩⟩
  rw [hload _ hsame, hload s hphase]
  exact h.1

/-- While the command worker drains its queue, it or a query of it brings the end nearer. -/
theorem draining_progress (text : CoreText) (hphase : s.phase = .draining) : ∃ a,
    Phase.draining.rank < (s.step text a).phase.rank ∨
      ((s.step text a).phase = .draining ∧ (s.step text a).load < s.load) := by
  have hserves : s.serves = true := by simp [serves, hphase]
  cases hqueue : s.cmdQueue with
  | cons d rest =>
      refine ⟨.pop, Or.inr ?_⟩
      simp [Gateway.step, Gateway.pop, hqueue, hserves, load, hphase]
      omega
  | nil =>
      cases hheld : s.held with
      | cons id rest =>
          refine ⟨.answer 0 (.error "gateway_shutdown"), Or.inr ?_⟩
          simp only [Gateway.step, Gateway.answer, hheld, pick, hserves, if_true,
            Gateway.postAnswer]
          cases s.core.post (.answer (.rejected id "gateway_shutdown")) true with
          | none => simp [load, hphase, hheld]
          | some core => simp [load, hphase, hheld]
      | nil =>
          refine ⟨.main, Or.inl ?_⟩
          simp [Gateway.step, Gateway.mainStep, hphase, hqueue, hheld, Phase.rank]

/-- In every phase but the last, some thread brings the shutdown forward. -/
theorem Inv.progress (h : s.Inv) (text : CoreText) (hphase : s.phase ≠ .done) : ∃ a,
    s.phase.rank < (s.step text a).phase.rank ∨
      ((s.step text a).phase = s.phase ∧ (s.step text a).load < s.load) := by
  cases hcase : s.phase with
  | loop => exact ⟨.main, Or.inl (by simp [Gateway.step, Gateway.mainStep, hcase, Phase.rank])⟩
  | stopped => exact ⟨.main, Or.inl (by simp [Gateway.step, Gateway.mainStep, hcase, Phase.rank])⟩
  | reloadsJoined =>
      exact ⟨.main, Or.inl (by simp [Gateway.step, Gateway.mainStep, hcase, Phase.rank])⟩
  | queueClosed =>
      exact ⟨.main, Or.inl (by simp [Gateway.step, Gateway.mainStep, hcase, Phase.rank])⟩
  | draining => exact draining_progress text hcase
  | drained =>
      refine ⟨.main, Or.inl ?_⟩
      simp only [Gateway.step, Gateway.mainStep, hcase]
      cases s.core.post .barrier true <;> simp [Phase.rank]
  | awaiting =>
      cases hreached : s.reached with
      | true =>
          refine ⟨.main, Or.inl ?_⟩
          simp [Gateway.step, Gateway.mainStep, hcase, hreached, Phase.rank]
      | false =>
          exact forward_of_cost (a := .core) hcase (fun u hu => by rw [load, hu])
            (h.awaiting_cost text hcase hreached)
  | closingQueries =>
      by_cases hwork : s.queryWork = .exited
      · exact ⟨.main, Or.inl (by simp [Gateway.step, Gateway.mainStep, hcase, hwork, Phase.rank])⟩
      · have hclosed : s.query.closed = true := by
          rw [h.closing.query, hcase]
          rfl
        exact forward_of_cost (a := .query) hcase (fun u hu => by rw [load, hu])
          (queryStep_cost hwork fun _ => Or.inr hclosed)
  | closingCore =>
      by_cases hwork : s.coreWork = .exited
      · exact ⟨.main, Or.inl (by simp [Gateway.step, Gateway.mainStep, hcase, hwork, Phase.rank])⟩
      · have hclosed : s.core.closed = true := by
          rw [h.closing.core, hcase]
          rfl
        exact forward_of_cost (a := .core) hcase (fun u hu => by rw [load, hu])
          (coreStep_cost text hwork fun _ => Or.inr hclosed)
  | closingManage =>
      by_cases hwork : s.manageWork = .exited
      · exact ⟨.main, Or.inl (by simp [Gateway.step, Gateway.mainStep, hcase, hwork, Phase.rank])⟩
      · have hclosed : s.manage.closed = true := by
          rw [h.closing.manage, hcase]
          rfl
        exact forward_of_cost (a := .manage) hcase (fun u hu => by rw [load, hu])
          (manageStep_cost hwork fun _ => Or.inr hclosed)
  | joiningMqtt =>
      by_cases hcalls : s.calls = []
      · exact ⟨.main, Or.inl (by simp [Gateway.step, Gateway.mainStep, hcase, hcalls, Phase.rank])⟩
      · exact forward_of_cost (a := .mqtt 0) hcase (fun u hu => by rw [load, hu])
          (mqttStep_cost hcalls)
  | done => exact absurd hcase hphase

/-- The phases still to come and, within a phase, what is waited for. -/
def toCome (s : Gateway) : Nat ×ₗ Nat := toLex (11 - s.phase.rank, s.load)

theorem Inv.exists_done (h : s.Inv) (text : CoreText) :
    ∃ more : List GatewayAction, (more.foldl (Gateway.step text) s).phase = .done := by
  apply exists_foldl_of_progress (I := Inv) (F := fun s => s.phase = .done) toCome _ _ h
  · exact fun s a hs => hs.step a
  · intro s hs hphase
    obtain ⟨a, ha⟩ := hs.progress text hphase
    refine ⟨a, Prod.Lex.toLex_lt_toLex.mpr ?_⟩
    rcases ha with hrank | ⟨hsame, hload⟩
    · have hlast : (s.step text a).phase.rank ≤ 11 := by
        cases (s.step text a).phase <;> decide
      left
      dsimp only
      omega
    · exact Or.inr ⟨by rw [hsame], hload⟩

theorem exists_done (text : CoreText) (actions : List GatewayAction) :
    ∃ more, (run text (actions ++ more)).phase = .done := by
  obtain ⟨more, hmore⟩ := (inv_run text actions).exists_done text
  refine ⟨more, ?_⟩
  rw [run, List.foldl_append]
  exact hmore

end Gateway

end EdgeGateway
