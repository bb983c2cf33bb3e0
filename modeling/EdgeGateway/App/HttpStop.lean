import EdgeGateway.App.HttpAnswered
import EdgeGateway.Basic.Steps
import Mathlib.Data.Prod.Lex

set_option autoImplicit false

/-! # `GatewayCore::stop` returns

While the owner waits, a worker it waits for has less and less to do. With the balance of
`GatewayCore` this settles what becomes of an accepted HTTP request.
-/

namespace EdgeGateway

namespace GatewayCore

variable {δ ν : Type} {s : GatewayCore δ ν} {asset : WebAsset} {formatValue : ν → List UInt8}

/-! ## What is left to do -/

def Work.cost : Work δ ν → Nat
  | .idle => 1
  | .task _ => 5
  | .submit _ => 4
  | .publish => 3
  | .release => 2
  | .query _ => 2
  | .exited => 0

def QueryWork.cost : QueryWork δ → Nat
  | .idle => 1
  | .running _ => 2
  | .exited => 0

attribute [simp] Work.cost QueryWork.cost

/-- The steps of the core worker, with what each task may lead to. -/
def coreCost (s : GatewayCore δ ν) : Nat := 5 * s.core.tasks.length + s.work.cost

def queryCost (s : GatewayCore δ ν) : Nat := 2 * s.query.tasks.length + s.queryWork.cost

/-- What the owner waits for. -/
def load (s : GatewayCore δ ν) : Nat :=
  match s.stage with
  | .awaiting => s.coreCost
  | .joiningQueries => s.queryCost
  | .joiningCore => s.coreCost
  | _ => 0

/-! ## The workers -/

/-- The core worker has got ahead of this cost; its mailbox and the owner are as before. -/
structure Ahead (s s' : GatewayCore δ ν) (cost : Nat) : Prop where
  tasks : s'.core.tasks = s.core.tasks
  work : s'.work.cost < cost
  stage : s'.stage = s.stage

theorem endCommand_ahead (id : RequestId) : s.Ahead (s.endCommand id) 4 := by
  unfold endCommand
  split_ifs
  · exact ⟨rfl, by simp, rfl⟩
  · exact ⟨rfl, by simp, rfl⟩

theorem postQuery_ahead (q : QueryTask δ) : s.Ahead (s.postQuery q) 2 := by
  unfold postQuery
  cases s.query.post q false with
  | none => exact ⟨rfl, by simp [reply], rfl⟩
  | some query => exact ⟨rfl, by simp, rfl⟩

theorem runTask_ahead (outside : Outside δ) (t : Task ν) :
    s.Ahead (s.runTask asset formatValue outside t) 5 := by
  cases t with
  | mqtt =>
      unfold runTask handleMqtt
      dsimp only
      split_ifs
      · exact ⟨rfl, by simp, rfl⟩
      · exact ⟨rfl, by simp, rfl⟩
  | telemetry => exact ⟨rfl, by simp [runTask], rfl⟩
  | http id request =>
      unfold runTask handleHttp
      dsimp only
      cases routeHttp asset outside.config request with
      | error response => exact ⟨rfl, by simp [reply], rfl⟩
      | ok query =>
          dsimp only
          split_ifs
          · exact ⟨rfl, by simp [reply], rfl⟩
          · cases outside.database with
            | none => exact ⟨rfl, by simp [reply], rfl⟩
            | some db => exact ⟨rfl, by simp, rfl⟩
  | answer id =>
      have hahead := endCommand_ahead (s := s) id
      exact { hahead with work := Nat.lt_succ_of_lt hahead.work }
  | queryDone id rows => exact ⟨rfl, by simp [runTask, reply], rfl⟩
  | barrier => exact ⟨rfl, by simp [runTask], rfl⟩

theorem Ahead.coreCost_lt {s' : GatewayCore δ ν} {cost : Nat} (h : s.Ahead s' cost)
    (hcost : s.work.cost = cost) : s'.coreCost < s.coreCost ∧ s'.stage = s.stage := by
  refine ⟨?_, h.stage⟩
  rw [coreCost, coreCost, h.tasks, hcost]
  exact Nat.add_lt_add_left h.work _

/-- The core worker gets ahead, unless it has to wait for a task. -/
theorem coreStep_cost (asset : WebAsset) (formatValue : ν → List UInt8) (outside : Outside δ)
    (hwork : s.work.isExited = false)
    (hready : s.work = .idle → s.core.tasks ≠ [] ∨ s.core.closed = true) :
    (s.coreStep asset formatValue outside).coreCost < s.coreCost ∧
      (s.coreStep asset formatValue outside).stage = s.stage := by
  unfold coreStep
  cases hcase : s.work with
  | idle =>
      dsimp only
      cases htasks : s.core.tasks with
      | cons t rest =>
          simp [coreCost, htasks, hcase]
          omega
      | nil =>
          rcases hready hcase with hne | hclosed
          · exact absurd htasks hne
          · simp [coreCost, hclosed, hcase]
  | task t => exact (runTask_ahead outside t).coreCost_lt (by rw [hcase]; rfl)
  | submit id =>
      have hahead : s.Ahead (if outside.submitted then
          { s with held := s.held ++ [id], work := .idle } else s.endCommand id) 4 := by
        split_ifs
        · exact ⟨rfl, by simp, rfl⟩
        · exact endCommand_ahead id
      exact hahead.coreCost_lt (by rw [hcase]; rfl)
  | publish =>
      have hahead : s.Ahead (if outside.published then
          { s with publishing := s.publishing + 1, work := .idle }
          else { s with work := .release }) 3 := by
        split_ifs
        · exact ⟨rfl, by simp, rfl⟩
        · exact ⟨rfl, by simp, rfl⟩
      exact hahead.coreCost_lt (by rw [hcase]; rfl)
  | release =>
      have hahead : s.Ahead { s with admitted := s.admitted - 1, work := .idle } 2 :=
        ⟨rfl, by simp, rfl⟩
      exact hahead.coreCost_lt (by rw [hcase]; rfl)
  | query q => exact (postQuery_ahead q).coreCost_lt (by rw [hcase]; rfl)
  | exited =>
      rw [hcase] at hwork
      cases hwork

theorem queryStep_cost (rows : Option (List (DataRow ν))) (hwork : s.queryWork.isExited = false)
    (hready : s.queryWork = .idle → s.query.tasks ≠ [] ∨ s.query.closed = true) :
    (s.queryStep rows).queryCost < s.queryCost ∧ (s.queryStep rows).stage = s.stage := by
  unfold queryStep
  cases hcase : s.queryWork with
  | idle =>
      dsimp only
      cases htasks : s.query.tasks with
      | cons q rest =>
          simp [queryCost, htasks, hcase]
          omega
      | nil =>
          rcases hready hcase with hne | hclosed
          · exact absurd htasks hne
          · simp [queryCost, hclosed, hcase]
  | running q => simp [queryCost, hcase]
  | exited =>
      rw [hcase] at hwork
      cases hwork

/-! ## Progress -/

/-- While the owner waits for the barrier, the core worker has it or is still to take it. -/
theorem Inv.awaiting_cost (h : s.Inv) (asset : WebAsset) (formatValue : ν → List UInt8)
    (outside : Outside δ) (hstage : s.stage = .awaiting) (hreached : s.reached = false) :
    (s.coreStep asset formatValue outside).coreCost < s.coreCost ∧
      (s.coreStep asset formatValue outside).stage = s.stage := by
  have hopen : s.core.closed ≠ true := by
    rw [ne_eq, h.closing.core, hstage]
    decide
  apply coreStep_cost
  · rw [Bool.eq_false_iff]
    exact fun hexited => hopen (h.closing.coreExited hexited).1
  · intro hwork
    refine Or.inl fun htasks => ?_
    have hbarrier := h.closing.barrier
    rw [hwork, htasks, hstage, hreached] at hbarrier
    cases hbarrier

/-- The thread that the owner waits for gets ahead. -/
theorem forward_of_cost {stage : Stage} {s' : GatewayCore δ ν} {cost : GatewayCore δ ν → Nat}
    (hstep : Step asset formatValue s s') (hstage : s.stage = stage)
    (hload : ∀ u : GatewayCore δ ν, u.stage = stage → u.load = cost u)
    (h : cost s' < cost s ∧ s'.stage = s.stage) : ∃ s', Step asset formatValue s s' ∧
      (stage.rank < s'.stage.rank ∨ s'.stage = stage ∧ s'.load < s.load) := by
  have hsame : s'.stage = stage := h.2.trans hstage
  refine ⟨s', hstep, Or.inr ⟨hsame, ?_⟩⟩
  rw [hload _ hsame, hload s hstage]
  exact h.1

/-- Before `stop` has returned, some thread brings it forward. -/
theorem Inv.progress (h : s.Inv) (hstage : s.stage ≠ .done) :
    ∃ s', Step asset formatValue s s' ∧
      (s.stage.rank < s'.stage.rank ∨ s'.stage = s.stage ∧ s'.load < s.load) := by
  let outside : Outside δ := ⟨{}, none, false, false, false⟩
  cases hcase : s.stage with
  | running => exact ⟨_, .stop s, Or.inl (by simp [GatewayCore.stop, hcase, Stage.rank])⟩
  | closing =>
      refine ⟨_, .stop s, Or.inl ?_⟩
      simp only [GatewayCore.stop, hcase]
      cases s.core.post .barrier true <;> simp [Stage.rank]
  | awaiting =>
      cases hreached : s.reached with
      | true => exact ⟨_, .stop s, Or.inl (by simp [GatewayCore.stop, hcase, hreached, Stage.rank])⟩
      | false =>
          exact forward_of_cost (.core s outside) hcase (fun u hu => by rw [load, hu])
            (h.awaiting_cost asset formatValue outside hcase hreached)
  | joiningQueries =>
      cases hwork : s.queryWork.isExited with
      | true => exact ⟨_, .stop s, Or.inl (by simp [GatewayCore.stop, hcase, hwork, Stage.rank])⟩
      | false =>
          have hclosed : s.query.closed = true := by
            rw [h.closing.query, hcase]
            decide
          exact forward_of_cost (.query s none) hcase (fun u hu => by rw [load, hu])
            (queryStep_cost none hwork fun _ => Or.inr hclosed)
  | joiningCore =>
      cases hwork : s.work.isExited with
      | true => exact ⟨_, .stop s, Or.inl (by simp [GatewayCore.stop, hcase, hwork, Stage.rank])⟩
      | false =>
          have hclosed : s.core.closed = true := by
            rw [h.closing.core, hcase]
            decide
          exact forward_of_cost (.core s outside) hcase (fun u hu => by rw [load, hu])
            (coreStep_cost asset formatValue outside hwork fun _ => Or.inr hclosed)
  | done => exact absurd hcase hstage

/-- The stages still to come and, within a stage, what is waited for. -/
def toCome (s : GatewayCore δ ν) : Nat ×ₗ Nat := toLex (5 - s.stage.rank, s.load)

theorem Inv.stop_returns (h : s.Inv) : ∃ s', Run asset formatValue s s' ∧ s'.stage = .done := by
  apply exists_run_of_progress (I := Inv) (F := fun s => s.stage = .done) toCome _ _ h
  · exact fun s s' hs hstep => inv_step hstep hs
  · intro s hs hstage
    obtain ⟨s', hstep, hahead⟩ := hs.progress hstage
    refine ⟨s', hstep, Prod.Lex.toLex_lt_toLex.mpr ?_⟩
    rcases hahead with hrank | ⟨hsame, hload⟩
    · have hlast : s'.stage.rank ≤ 5 := by
        cases s'.stage <;> decide
      left
      dsimp only
      omega
    · exact Or.inr ⟨by rw [hsame], hload⟩

/-- **Accepted requests are answered.** In every run a request has at most one reply, and none
before it is accepted; when `stop` has returned, which it always can, every accepted request has
exactly one and no query is left over. The query executor takes every query below the limit until it
is closed, and the core takes the end of every query. -/
theorem http_answered (hrun : Run asset formatValue {} s) :
    s.accepted.Nodup ∧
      (∀ id, (s.replies.map Prod.fst).count id ≤ s.accepted.count id) ∧
      (s.stage = .done → (s.replies.map Prod.fst).Perm s.accepted ∧ s.queries = 0) ∧
      (∃ s', Run asset formatValue s s' ∧ s'.stage = .done) ∧
      (0 ≤ s.queries ∧ s.queries ≤ kMaxQueries) ∧
      (s.query.closed = false → ∀ q, s.queries < kMaxQueries ∨ s.work = .query q →
        (s.query.post q false).isSome) ∧
      ∀ q rows, s.queryWork = .running q → (s.core.post (.queryDone q.id rows) true).isSome := by
  have h := inv_run hrun
  refine ⟨h.accepted_nodup, h.accounts.replies_le, h.answered, h.stop_returns, h.accounts.queries,
    fun hopen q hq => ?_, fun q rows hrunning => ?_⟩
  · apply h.query_takes hopen
    have hlimit := h.accounts.queries.2
    rcases hq with hfew | hwork
    · omega
    · -- the query is counted already
      rw [hwork]
      simp only [Work.debts, QueryTask.debts, tally_cons, tally_nil, weigh_some, Debt.queries]
      omega
  · rw [h.core_takes (h.core_open (by rw [hrunning]; rfl)).2]
    rfl

/-- `stop` is called while a query waits in its mailbox; the query throws. -/
def stopped : GatewayCore Unit Unit :=
  let asset : WebAsset := ⟨[], [], []⟩
  let outside : Outside Unit := ⟨{}, some (), true, true, true⟩
  let request : HttpRequest := ⟨bytes "GET", bytes "/api/data?dev=temperature"⟩
  let work := fun s : GatewayCore Unit Unit => s.coreStep asset (fun _ => []) outside
  let s : GatewayCore Unit Unit := httpRequest request {}
  let s := work (work (work ({ s with httpCalls := [] }.postHttp 0 request)))
  let s := (work (work s.stop.stop)).stop
  let s := (queryStep none (queryStep none (queryStep none s))).stop
  (work (work (work s))).stop

theorem http_answered_stopped : Run ⟨[], [], []⟩ (fun _ => []) {} stopped ∧
    stopped.accepted = [0] ∧ (stopped.replies.map Prod.fst).Perm stopped.accepted := by
  have hrun : Run ⟨[], [], []⟩ (fun _ => []) {} stopped := by
    refine .head (.http _ ⟨bytes "GET", bytes "/api/data?dev=temperature"⟩) ?_
    refine .head (.postHttp _ [] 0 _ [] rfl) ?_
    iterate 3 refine .head (.core _ ⟨{}, some (), true, true, true⟩) ?_
    iterate 2 refine .head (.stop _) ?_
    iterate 2 refine .head (.core _ ⟨{}, some (), true, true, true⟩) ?_
    refine .head (.stop _) ?_
    iterate 3 refine .head (.query _ none) ?_
    refine .head (.stop _) ?_
    iterate 3 refine .head (.core _ ⟨{}, some (), true, true, true⟩) ?_
    exact .single (.stop _)
  exact ⟨hrun, rfl, ((http_answered hrun).2.2.1 rfl).1⟩

end GatewayCore

end EdgeGateway
