import EdgeGateway.App.Shutdown

set_option autoImplicit false

/-! # What is published for a command

The publications on their way come from the ends of requests alone, so each goes to a topic for
answers. With the accounts of the threads, every accepted message has exactly one.
-/

namespace EdgeGateway

/-- A weight of messages alone. -/
def Debt.onMessages (w : Nat → Nat) : Debt → Nat
  | .message msg => w msg
  | _ => 0

/-- The topics for answers to a command. -/
def AnswerTopic (topic : String) : Prop :=
  topic = "gateway/ack/rejected" ∨
    ∃ seq : UInt8, topic = "gateway/ack/" ++ toString seq.toNat ∨
      topic = "gateway/resp/" ++ toString seq.toNat

theorem answerTopic_finished (text : CoreText) (result : CommandCompletion) :
    AnswerTopic (finishedMessage text result).1 := by
  refine Or.inr ⟨result.seq, ?_⟩
  unfold finishedMessage
  dsimp only
  split_ifs
  all_goals simp

def CoreWork.publications : CoreWork → List Publication
  | .publish p => [p]
  | _ => []

def ManageTask.publications : ManageTask → List Publication
  | .terminal p => [p]
  | _ => []

def ManageWork.publications : ManageWork → List Publication
  | .task t => t.publications
  | _ => []

attribute [simp] CoreWork.publications ManageTask.publications ManageWork.publications

namespace Gateway

variable {s : Gateway} {text : CoreText}

/-- The publications made and on their way are answers. -/
structure Topics (s : Gateway) : Prop where
  work : ∀ p ∈ s.coreWork.publications, AnswerTopic p.topic
  tasks : ∀ t ∈ s.manage.tasks, ∀ p ∈ t.publications, AnswerTopic p.topic
  manage : ∀ p ∈ s.manageWork.publications, AnswerTopic p.topic
  published : ∀ p ∈ s.published, AnswerTopic p.topic

/-! ## The core worker -/

theorem Topics.endRequest (h : s.Topics) (id : RequestId) {message : String × String}
    (htopic : AnswerTopic message.1) : (s.endRequest id message).Topics := by
  unfold Gateway.endRequest
  cases takeKey id s.pending with
  | none => exact { h with work := fun p hp => by cases hp }
  | some r => exact { h with work := fun p hp => by rw [List.mem_singleton.mp hp]; exact htopic }

theorem Topics.reject (h : s.Topics) (id : RequestId) (error : String) :
    (s.reject id error).Topics :=
  h.endRequest id (Or.inl rfl)

theorem Topics.runCoreTask (h : s.Topics) (t : CoreTask) : (s.runCoreTask text t).Topics := by
  cases t with
  | mqtt msg topic payload =>
      unfold Gateway.runCoreTask Gateway.handleMqtt
      dsimp only
      cases text.translate topic payload with
      | error error =>
          exact { h with work := fun p hp => by rw [List.mem_singleton.mp hp]; exact Or.inl rfl }
      | ok cmd => exact { h with work := fun p hp => by cases hp }
  | telemetry readings => exact { h with work := fun p hp => by cases hp }
  | http query =>
      unfold Gateway.runCoreTask Gateway.handleHttp
      dsimp only
      split_ifs
      · exact { h with work := fun p hp => by cases hp }
      · exact { h with work := fun p hp => by cases hp }
  | answer call =>
      cases call with
      | finished id result => exact h.endRequest id (answerTopic_finished text result)
      | rejected id error => exact h.reject id error
  | queryDone => exact { h with work := fun p hp => by cases hp }
  | barrier => exact { h with work := fun p hp => by cases hp }

/-- A publication goes to the management worker, or is lost. -/
theorem Topics.publishCommand (h : s.Topics) {p : Publication} (hwork : s.coreWork = .publish p) :
    (s.publishCommand p).Topics := by
  have htopic : AnswerTopic p.topic := h.work p (by simp [hwork])
  unfold Gateway.publishCommand
  cases hpost : s.manage.post (.terminal p) true with
  | none => exact { h with work := fun p hp => by cases hp }
  | some manage =>
      obtain ⟨-, -, rfl⟩ := TaskExecutor.post_eq_some hpost
      exact { h with
        work := fun p hp => by cases hp
        tasks := fun t ht => by
          rcases List.mem_append.mp ht with ht | ht
          · exact h.tasks t ht
          · rw [List.mem_singleton.mp ht]
            simpa using htopic }

theorem Topics.publishUplink (h : s.Topics) (readings : List (String × String)) :
    (s.publishUplink readings).Topics := by
  cases readings with
  | nil => exact { h with work := fun p hp => by cases hp }
  | cons reading rest =>
      obtain ⟨device, value⟩ := reading
      dsimp only [Gateway.publishUplink]
      cases hpost : s.manage.post (.uplink ("gateway/up/" ++ device) value) false with
      | none => exact { h with work := fun p hp => by cases hp }
      | some manage =>
          obtain ⟨-, -, rfl⟩ := TaskExecutor.post_eq_some hpost
          exact { h with
            work := fun p hp => by cases hp
            tasks := fun t ht => by
              rcases List.mem_append.mp ht with ht | ht
              · exact h.tasks t ht
              · rw [List.mem_singleton.mp ht]
                exact fun p hp => by cases hp }

theorem Topics.coreStep (h : s.Topics) : (s.coreStep text).Topics := by
  unfold Gateway.coreStep
  split
  · split
    · exact { h with work := fun p hp => by cases hp }
    · split_ifs
      · exact { h with work := fun p hp => by cases hp }
      · exact h
  · exact h.runCoreTask _
  · split_ifs
    · exact h.reject _ _
    · exact { h with work := fun p hp => by cases hp }
  · unfold Gateway.pushCommand
    split_ifs
    · exact h.reject _ _
    · exact { h with work := fun p hp => by cases hp }
  · next hwork => exact h.publishCommand hwork
  · exact h.publishUplink _
  · unfold Gateway.postQuery
    split
    · exact { h with work := fun p hp => by cases hp }
    · exact { h with work := fun p hp => by cases hp }
  · exact h

/-! ## The other threads -/

theorem Topics.manageStep (h : s.Topics) : s.manageStep.Topics := by
  unfold Gateway.manageStep
  split
  · split
    · next t rest htasks =>
        have htopics : ∀ t' ∈ t :: rest, ∀ p ∈ t'.publications, AnswerTopic p.topic :=
          htasks ▸ h.tasks
        exact { h with
          tasks := fun t' ht' => htopics t' (List.mem_cons_of_mem _ ht')
          manage := htopics t List.mem_cons_self }
    · split_ifs
      · exact { h with manage := fun p hp => by cases hp }
      · exact h
  · next t hwork =>
      have htopics : ∀ p ∈ t.publications, AnswerTopic p.topic := fun p hp =>
        h.manage p (by rw [hwork]; exact hp)
      cases t with
      | terminal p =>
          exact { h with
            manage := fun p hp => by cases hp
            published := fun p' hp' => by
              rcases List.mem_append.mp hp' with hp' | hp'
              · exact h.published p' hp'
              · exact htopics p' hp' }
      | uplink topic value => exact { h with manage := fun p hp => by cases hp }
      | reload => exact { h with manage := fun p hp => by cases hp }
  · exact { h with manage := fun p hp => by cases hp }
  · exact h

theorem Topics.callStep (h : s.Topics) (c : MqttCall) : (s.callStep c).2.Topics := by
  unfold Gateway.callStep
  split
  · split_ifs
    · exact h
    · exact h
  · split_ifs
    · exact h
    · exact { h with }
  · split
    · exact { h with }
    · exact h
  · exact { h with }

theorem Topics.requestReload (h : s.Topics) : s.requestReload.Topics := by
  unfold Gateway.requestReload
  split_ifs
  · cases hpost : s.manage.post .reload true with
    | none => exact h
    | some manage =>
        obtain ⟨-, -, rfl⟩ := TaskExecutor.post_eq_some hpost
        exact { h with
          tasks := fun t ht => by
            rcases List.mem_append.mp ht with ht | ht
            · exact h.tasks t ht
            · rw [List.mem_singleton.mp ht]
              exact fun p hp => by cases hp }
  · exact h

theorem Topics.answer (h : s.Topics) (i : Nat) (result : Except String CommandCompletion) :
    (s.answer i result).Topics := by
  have hpost : ∀ (held : List RequestId) (call : CoreCall),
      (Gateway.postAnswer { s with held := held } call).Topics := by
    intro held call
    unfold Gateway.postAnswer
    split
    · exact { h with }
    · exact { h with }
  unfold Gateway.answer
  split
  · exact h
  · split_ifs
    · cases result with
      | ok completion => exact hpost _ _
      | error error => exact hpost _ _
    · exact h

theorem Topics.mainStep (h : s.Topics) : s.mainStep.Topics := by
  unfold Gateway.mainStep
  cases s.phase with
  | loop => exact { h with }
  | stopped => exact { h with }
  | reloadsJoined => exact { h with }
  | queueClosed => exact { h with }
  | draining =>
      dsimp only
      split_ifs
      · exact { h with }
      · exact h
  | drained =>
      dsimp only
      split
      · exact { h with }
      · exact { h with }
  | awaiting =>
      dsimp only
      split_ifs
      · exact { h with }
      · exact h
  | closingQueries =>
      dsimp only
      split_ifs
      · exact { h with }
      · exact h
  | closingCore =>
      dsimp only
      split
      · exact { h with }
      · exact h
  | closingManage =>
      dsimp only
      split
      · exact { h with }
      · exact h
  | joiningMqtt =>
      dsimp only
      split_ifs
      · exact { h with }
      · exact h
  | done => exact h

theorem Topics.step (h : s.Topics) (a : GatewayAction) : (s.step text a).Topics := by
  cases a with
  | arrive topic payload =>
      unfold Gateway.step Gateway.arrive
      dsimp only
      split_ifs
      · exact h
      · exact { h with }
  | mqtt i =>
      unfold Gateway.step Gateway.mqttStep
      dsimp only
      split
      · exact h
      · exact { h.callStep _ with }
  | core => exact h.coreStep
  | query =>
      unfold Gateway.step Gateway.queryStep
      dsimp only
      split
      · split
        · exact { h with }
        · split_ifs
          · exact { h with }
          · exact h
      · split
        · exact { h with }
        · exact { h with }
      · exact h
  | manage => exact h.manageStep
  | main => exact h.mainStep
  | pop =>
      unfold Gateway.step Gateway.pop
      dsimp only
      split
      · exact h
      · split_ifs
        · exact { h with }
        · exact h
  | answer i result => exact h.answer i result
  | telemetry readings =>
      unfold Gateway.step Gateway.telemetry
      dsimp only
      split_ifs
      · exact { h with }
      · exact h
  | http query =>
      unfold Gateway.step Gateway.httpRequest
      dsimp only
      split_ifs
      · exact { h with }
      · exact h
  | reload => exact h.requestReload
  | stop =>
      unfold Gateway.step Gateway.requestStop
      dsimp only
      split_ifs
      · exact { h with }
      · exact h

theorem topics_run (text : CoreText) (actions : List GatewayAction) : (run text actions).Topics := by
  apply List.foldlRecOn actions (step text)
  · exact {
      work := fun p hp => by cases hp
      tasks := fun t ht => by cases ht
      manage := fun p hp => by cases hp
      published := fun p hp => by cases hp }
  · exact fun _ h a _ => h.step a

/-! ## Messages -/

theorem opened_onMessages (w : Nat → Nat) :
    s.opened (Debt.onMessages w) = tally some w s.accepted := by
  simp [opened, tally_total, tally_some, Debt.onMessages]

namespace Accounts

theorem nodup_accepted (h : s.Accounts) : s.accepted.Nodup := by
  refine List.nodup_iff_count_le_one.mpr fun msg => ?_
  have hfresh := h.fresh msg
  rw [List.count_append] at hfresh
  split_ifs at hfresh <;> omega

/-- What is published or settled was accepted. -/
theorem settled_le (h : s.Accounts) (w : Nat → Nat) :
    tally some w s.settled + weigh w s.manageWork.released ≤ tally some w s.accepted := by
  have hbalance := h.balance (Debt.onMessages w)
  have hsettled : tally (fun msg => some (.message msg)) (Debt.onMessages w) s.settled =
      tally some w s.settled := by
    simp [tally_total, tally_some, Debt.onMessages]
  have hreleased : weigh w s.manageWork.released ≤
      weigh (Debt.onMessages w) s.manageWork.debt := by
    cases s.manageWork <;> simp [Debt.onMessages]
  rw [opened_onMessages, carried, hsettled] at hbalance
  omega

/-- No message is published twice. -/
theorem published_subperm (h : s.Accounts) :
    (s.published.map Publication.msg).Subperm s.accepted := by
  refine List.subperm_ext_iff.mpr fun msg _ => ?_
  have hle := h.settled_le fun m => if m = msg then 1 else 0
  have hpublished := h.published fun m => if m = msg then 1 else 0
  rw [← hpublished, ← tally_map, tally_count, tally_count] at hle
  exact hle

theorem settled_subperm (h : s.Accounts) : s.settled.Subperm s.accepted := by
  refine List.subperm_ext_iff.mpr fun msg _ => ?_
  have hle := h.settled_le fun m => if m = msg then 1 else 0
  rw [tally_count, tally_count] at hle
  exact Nat.le_trans (Nat.le_add_right _ _) hle

/-- The accepted messages that are not settled. -/
theorem length_waiting (h : s.Accounts) :
    (s.accepted.filter (· ∉ s.settled)).length + s.settled.length = s.accepted.length := by
  have hsub := h.settled_subperm
  have hnodup : s.settled.Nodup := by
    obtain ⟨l, hperm, hl⟩ := hsub
    exact hperm.nodup_iff.mp (h.nodup_accepted.sublist hl)
  have hsettled : (s.accepted.filter (· ∈ s.settled)).Perm s.settled := by
    apply (List.perm_ext_iff_of_nodup (h.nodup_accepted.filter _) hnodup).mpr
    intro msg
    rw [List.mem_filter, decide_eq_true_iff]
    exact ⟨And.right, fun hmsg => ⟨hsub.subset hmsg, hmsg⟩⟩
  rw [List.length_eq_countP_add_countP (· ∈ s.settled) (l := s.accepted), ← hsettled.length_eq,
    List.countP_eq_length_filter, List.countP_eq_length_filter]
  simp
  omega

end Accounts

/-- A call that has taken a credit and has not posted its message. -/
def holdsCredit (c : MqttCall) : Bool := c.stage = .credited ∨ c.stage = .refused

theorem tally_credit (calls : List MqttCall) :
    tally MqttCall.credit (fun _ => 1) calls = calls.countP holdsCredit := by
  induction calls with
  | nil => rfl
  | cons c calls ih =>
      rw [tally_cons, ih, List.countP_cons, MqttCall.credit, holdsCredit]
      cases c.stage <;> simp [Nat.add_comm]

/-! ## The end -/

/-- At the end nothing is on its way. -/
theorem Inv.answered (h : s.Inv) (hphase : s.phase = .done) :
    (s.published.map Publication.msg).Perm s.accepted ∧ s.admitted = 0 := by
  have hcalls : s.calls = [] := h.closing.callsOver (by rw [hphase]; rfl)
  have hcore : s.coreWork = .exited := h.closing.coreOver (by rw [hphase]; rfl)
  have hmanage : s.manageWork = .exited := h.closing.manageOver (by rw [hphase]; rfl)
  have hquery : s.queryWork = .exited := h.closing.queryOver (by rw [hphase]; rfl)
  obtain ⟨hqueue, hheld⟩ := h.closing.drained (by rw [hphase]; rfl)
  have hcarried : ∀ w, s.carried w = tally (fun p => some (.message p.2)) w s.pending +
      tally (fun msg => some (.message msg)) w s.settled := by
    intro w
    simp [carried, hcore, hmanage, hquery, hqueue, hheld, (h.closing.coreExited hcore).2,
      (h.closing.manageExited hmanage).2, (h.closing.queryExited hquery).2]
  have hpending : s.pending = [] := by
    have hbalance := h.accounts.balance Debt.requests
    rw [opened_requests, hcarried] at hbalance
    simpa [tally_total] using hbalance
  have hsettled : ∀ w, tally some w s.accepted = tally some w s.settled := by
    intro w
    have hbalance := h.accounts.balance (Debt.onMessages w)
    rw [opened_onMessages, hcarried, hpending] at hbalance
    simpa [tally_total, tally_some, Debt.onMessages] using hbalance
  constructor
  · refine perm_of_tally fun w => ?_
    have hpublished := h.accounts.published w
    rw [hmanage] at hpublished
    rw [tally_map, hpublished, hsettled]
    rfl
  · have hcredits := h.accounts.credits
    have hmessages := h.accounts.messages
    simp only [hcalls, hcore, hmanage, hpending, (h.closing.coreExited hcore).2,
      (h.closing.manageExited hmanage).2, tally_nil, List.length_nil, CoreWork.debt,
      ManageWork.debt, weigh_none] at hcredits hmessages
    omega

/-- **Admission.** In every state that any interleaving reaches, the credits in use are those of the
calls that have one and of the accepted messages whose terminal task is not over, at most
`kMaxCommands`; no completion and no terminal publication has been refused; every publication is an
answer to an accepted message, and no message has two. The shutdown can always be brought to its
end, and then every accepted message has its publication and every credit is back. -/
theorem admission (text : CoreText) (actions : List GatewayAction) :
    (run text actions).admitted ≤ kMaxCommands ∧
    (run text actions).admitted = (run text actions).calls.countP holdsCredit +
      ((run text actions).accepted.filter (· ∉ (run text actions).settled)).length ∧
    (run text actions).refused = 0 ∧
    (∀ p ∈ (run text actions).published, AnswerTopic p.topic) ∧
    ((run text actions).published.map Publication.msg).Subperm (run text actions).accepted ∧
    (run text actions).accepted.Nodup ∧
    ((run text actions).phase = .done →
      ((run text actions).published.map Publication.msg).Perm (run text actions).accepted ∧
        (run text actions).admitted = 0) ∧
    ∃ more, (run text (actions ++ more)).phase = .done := by
  have h : (run text actions).Inv := inv_run text actions
  refine ⟨h.accounts.budget, ?_, h.refused, (topics_run text actions).published,
    h.accounts.published_subperm, h.accounts.nodup_accepted, h.answered, exists_done text actions⟩
  have hcredits := h.accounts.credits
  have hwaiting := h.accounts.length_waiting
  rw [tally_credit] at hcredits
  omega

end Gateway

end EdgeGateway
