import EdgeGateway.Protocol.SrCall

set_option autoImplicit false

/-! # The receiver under a wrapping clock

The ideal run goes by a clock that never decreases; the node sees its readings modulo `2 ^ 32`. The
stamps of a slot are earlier readings, so the two agree as long as no slot in use gets `2 ^ 32` old.
The deadlines see to it when every call and the pause behind it take less than `2 ^ 31`.
-/

namespace EdgeGateway

variable {τ σ : Type}

/-! ## Readings -/

def NodeEvent.reading? : NodeEvent τ → Option τ
  | .now t => some t
  | _ => none

/-- The readings of the clock, in order. -/
def readings (log : List (NodeEvent τ)) : List τ := log.filterMap NodeEvent.reading?

@[simp] theorem readings_nil : readings ([] : List (NodeEvent τ)) = [] := rfl

@[simp] theorem readings_append (log es : List (NodeEvent τ)) :
    readings (log ++ es) = readings log ++ readings es :=
  List.filterMap_append

@[simp] theorem readings_now (t : τ) (es : List (NodeEvent τ)) :
    readings (.now t :: es) = t :: readings es := rfl

theorem mem_readings {t : τ} {log : List (NodeEvent τ)} : t ∈ readings log ↔ .now t ∈ log := by
  rw [readings, List.mem_filterMap]
  constructor
  · rintro ⟨e, he, ht⟩
    cases e <;> simp_all [NodeEvent.reading?]
  · intro h
    exact ⟨_, h, rfl⟩

/-! ## Rules for calls and runs -/

section Rules

variable [Clock τ]

/-- **The invariant rule for a call**: what the first deadlines establish and every move preserves
holds at the end and, but for the last reading, in every scan after the first. -/
theorem call_invariant {I : EdgeSrNode τ → List (NodeEvent τ) → Prop} (n : EdgeSrNode τ)
    (call : NodeCall τ σ)
    (hstart : I (n.expired call.start) (.now call.start :: n.expiry call.start))
    (hmove : ∀ m log es m', I m log → NodeMove call.input call.isTick call.start m es m' →
      I m' (log ++ es)) :
    I (call.run n).node (call.run n).events ∧
      ∀ scan ∈ call.scans n,
        scan.run.node = n ∧ scan.now = call.start ∨
          ∃ log, I scan.run.node log ∧ log ++ [.now scan.now] <+: (call.run n).events := by
  constructor
  · obtain ⟨es, hes, hsteps⟩ := call_moves n call
    rw [hes, ← List.cons_append]
    exact hsteps.invariant hmove _ hstart
  · intro scan hscan
    obtain ⟨hrecorded, ⟨hnode, hnow, -⟩ | ⟨es, hsteps, hevents⟩⟩ := call_scans n call hscan
    · exact .inl ⟨hnode, hnow⟩
    · refine .inr ⟨_, hsteps.invariant hmove _ hstart, ?_⟩
      rw [List.cons_append, ← hevents]
      exact List.IsPrefix.trans ⟨_, (expire_events _ _).symm⟩ hrecorded

/-- **The invariant rule for runs**: every call preserves `I`. -/
theorem runCalls_invariant
    {I : EdgeSrNode τ → List (NodeCall τ σ × List (NodeEvent τ)) → Prop}
    (hcall : ∀ n history call, I n history →
      I (call.run n).node (history ++ [(call, (call.run n).events)]))
    (calls : List (NodeCall τ σ)) :
    ∀ n history, I n history → I (runCalls n calls).1 (history ++ (runCalls n calls).2) := by
  induction calls with
  | nil =>
      intro n history h
      rw [show (runCalls n ([] : List (NodeCall τ σ))).2 = [] from rfl, List.append_nil]
      exact h
  | cons call rest ih =>
      intro n history h
      have hrest := ih _ _ (hcall n history call h)
      rw [List.append_assoc] at hrest
      exact hrest

end Rules

/-! ## Stamps are readings -/

/-- The stamps of a slot in use are readings in the log. -/
structure Stamped (log : List (NodeEvent Nat)) (e : EdgeSrEntry Nat) : Prop where
  received : e.state = .buffered → e.receivedAt ∈ readings log
  completed : e.state = .executed → e.completedAt ∈ readings log
  sent : e.state = .executed → e.lastSentAt ∈ readings log
  order : e.state = .executed → e.completedAt ≤ e.lastSentAt

theorem stamped_free {log : List (NodeEvent Nat)} {e : EdgeSrEntry Nat} (h : e.state = .free) :
    Stamped log e :=
  ⟨by simp [h], by simp [h], by simp [h], by simp [h]⟩

theorem Stamped.append {log : List (NodeEvent Nat)} {e : EdgeSrEntry Nat} (h : Stamped log e)
    (es : List (NodeEvent Nat)) : Stamped (log ++ es) e := by
  have hmem : ∀ {t : Nat}, t ∈ readings log → t ∈ readings (log ++ es) := by
    intro t ht
    rw [readings_append]
    exact List.mem_append_left _ ht
  exact ⟨fun hs => hmem (h.received hs), fun hs => hmem (h.completed hs),
    fun hs => hmem (h.sent hs), h.order⟩

theorem stamped_slot {inp : NodeInput} {tick : Bool} {t : Nat} {n : EdgeSrNode Nat}
    {log es : List (NodeEvent Nat)} (ht : t ∈ readings log) {i : Slot} {e : EdgeSrEntry Nat}
    (h : Stamped log (n.entries i)) (hslot : SlotMove inp tick t n es i e) :
    Stamped (log ++ es) e := by
  have ht' : t ∈ readings (log ++ es) := by
    rw [readings_append]
    exact List.mem_append_left _ ht
  cases hslot with
  | kept => exact h.append es
  | stored c =>
      have hstate : ((n.entries i).receive c.seq c.type c.args t).state = .buffered := rfl
      exact ⟨fun _ => ht', by simp [hstate], by simp [hstate], by simp [hstate]⟩
  | completed result u htick hstate hes =>
      have hu : u ∈ readings (log ++ es) := by
        rw [readings_append, hes]
        exact List.mem_append_right _ (by simp [mem_readings])
      have hdone : ((n.entries i).complete result u).state = .executed := rfl
      exact ⟨by simp [hdone], fun _ => hu, fun _ => hu, fun _ => Nat.le_refl u⟩
  | resent htick hstate hretries hage =>
      have hle : (n.entries i).completedAt ≤ t := by
        have hage' : t - (n.entries i).lastSentAt ≥ EDGE_ACK_TIMEOUT_MS := hage
        have horder := h.order hstate
        simp only [EDGE_ACK_TIMEOUT_MS] at hage'
        omega
      exact ⟨by simp [hstate], fun _ => (h.append es).completed hstate, fun _ => ht', fun _ => hle⟩

/-! ## Ages in a run -/

/-- The clock never decreases. -/
def Nondecreasing (log : List (NodeEvent Nat)) : Prop := (readings log).Pairwise (· ≤ ·)

instance (log : List (NodeEvent Nat)) : Decidable (Nondecreasing log) :=
  inferInstanceAs (Decidable (List.Pairwise _ _))

theorem Nondecreasing.of_le {log log' : List (NodeEvent Nat)} (h : Nondecreasing log')
    (hle : log <+: log') : Nondecreasing log := by
  obtain ⟨es, rfl⟩ := hle
  rw [Nondecreasing, readings_append, List.pairwise_append] at h
  exact h.1

theorem Nondecreasing.le {log es : List (NodeEvent Nat)} (h : Nondecreasing (log ++ es)) {t u : Nat}
    (ht : t ∈ readings log) (hu : u ∈ readings es) : t ≤ u := by
  rw [Nondecreasing, readings_append, List.pairwise_append] at h
  exact h.2.2 t ht u hu

/-- No slot in use is `2 ^ 32` old at `now`. -/
def EdgeSrNode.InLife (n : EdgeSrNode Nat) (now : Nat) : Prop :=
  ∀ i, ((n.entries i).state = .buffered → now < (n.entries i).receivedAt + 2 ^ 32) ∧
    ((n.entries i).state = .executed → now < (n.entries i).completedAt + 2 ^ 32)

def Scan.InLife (scan : Scan Nat σ) : Prop := scan.run.node.InLife scan.now

instance (scan : Scan Nat σ) : Decidable scan.InLife :=
  inferInstanceAs (Decidable (∀ _, _ ∧ _))

/-- Stamps that are earlier readings have the same age on the node's clock. -/
theorem agrees_of_inLife {scan : Scan Nat σ} {log : List (NodeEvent Nat)}
    (hstamped : ∀ i, Stamped log (scan.run.node.entries i))
    (hmono : Nondecreasing (log ++ [.now scan.now])) (hlife : scan.InLife) :
    scan.Agrees wrapMs := by
  intro i
  have hpast : ∀ {t : Nat}, t ∈ readings log → t ≤ scan.now := fun ht => hmono.le ht (by simp)
  constructor
  · intro hstate
    exact elapsed_wrapMs (hpast ((hstamped i).received hstate)) ((hlife i).1 hstate)
  · intro hstate
    exact elapsed_wrapMs (hpast ((hstamped i).completed hstate)) ((hlife i).2 hstate)
  · intro hstate
    have horder := (hstamped i).order hstate
    have hlt := (hlife i).2 hstate
    exact elapsed_wrapMs (hpast ((hstamped i).sent hstate)) (by omega)

/-- What a call leaves is stamped, and so are its scans. -/
theorem stamped_call {n : EdgeSrNode Nat} {log : List (NodeEvent Nat)} (call : NodeCall Nat σ)
    (hn : ∀ i, Stamped log (n.entries i)) :
    (∀ i, Stamped (log ++ (call.run n).events) ((call.run n).node.entries i)) ∧
      ∀ scan ∈ call.scans n, ∃ es, (∀ i, Stamped (log ++ es) (scan.run.node.entries i)) ∧
        es ++ [.now scan.now] <+: (call.run n).events := by
  have hinv := call_invariant (I := fun m es => call.start ∈ readings es ∧
    ∀ i, Stamped (log ++ es) (m.entries i)) n call ?_ ?_
  · refine ⟨hinv.1.2, fun scan hscan => ?_⟩
    rcases hinv.2 scan hscan with ⟨hnode, hnow⟩ | ⟨es, hes, hle⟩
    · refine ⟨[], fun i => ?_, ?_⟩
      · rw [List.append_nil, hnode]
        exact hn i
      · obtain ⟨es, hes, -⟩ := call_moves n call
        rw [hes, hnow]
        exact ⟨_, rfl⟩
    · exact ⟨es, hes.2, hle⟩
  · refine ⟨by simp, slots_expired (fun _ => stamped_free) (fun _ h => h.append _) hn⟩
  · intro m es es' m' hes hmove
    refine ⟨?_, ?_⟩
    · rw [readings_append]
      exact List.mem_append_left _ hes.1
    · rw [← List.append_assoc]
      refine slots_move hmove (fun _ => stamped_free) (fun i e h hslot => ?_) hes.2
      refine stamped_slot ?_ h hslot
      rw [readings_append]
      exact List.mem_append_right _ hes.1

/-- A run within the life of its entries is the same on the node's clock. -/
theorem everyScan_agrees (calls : List (NodeCall Nat σ)) :
    ∀ (n : EdgeSrNode Nat) (log : List (NodeEvent Nat)), (∀ i, Stamped log (n.entries i)) →
      Nondecreasing (log ++ logOf (runCalls n calls).2) → EveryScan Scan.InLife n calls →
      EveryScan (Scan.Agrees wrapMs) n calls := by
  induction calls with
  | nil => exact fun _ _ _ _ _ => trivial
  | cons call rest ih =>
      intro n log hn hmono hlife
      have hlog : logOf (runCalls n (call :: rest)).2 =
          (call.run n).events ++ logOf (runCalls (call.run n).node rest).2 := rfl
      rw [hlog, ← List.append_assoc] at hmono
      obtain ⟨hnext, hscans⟩ := stamped_call call hn
      refine ⟨fun scan hscan => ?_, ih _ _ hnext hmono hlife.2⟩
      obtain ⟨es, hes, hle⟩ := hscans scan hscan
      refine agrees_of_inLife hes (hmono.of_le ?_) (hlife.1 scan hscan)
      rw [List.append_assoc, List.append_assoc, List.prefix_append_right_inj]
      exact hle.trans (List.prefix_append _ _)

/-- **The node's clock is invisible** as long as no slot in use gets `2 ^ 32` old. -/
theorem wrap_run (memory : EdgeSrNode Nat) (calls : List (NodeCall Nat σ))
    (hmono : Nondecreasing (logOf (runCalls (edgeSrNodeInit memory) calls).2))
    (hlife : EveryScan Scan.InLife (edgeSrNodeInit memory) calls) :
    runCalls (edgeSrNodeInit (memory.map wrapMs)) (calls.map (NodeCall.map wrapMs))
      = ((runCalls (edgeSrNodeInit memory) calls).1.map wrapMs,
          mapHistory wrapMs (runCalls (edgeSrNodeInit memory) calls).2) := by
  have hinit : ∀ i, Stamped [] ((edgeSrNodeInit memory).entries i) := fun _ => stamped_free rfl
  exact map_runCalls calls _ (everyScan_agrees calls _ [] hinit (by simpa using hmono) hlife)

/-! ## Ages between calls -/

/-- The age of a slot in use at the start `t` of the last call is within the deadlines. -/
structure Young (t : Nat) (e : EdgeSrEntry Nat) : Prop where
  waiting : e.state = .buffered → t < e.receivedAt + EDGE_COMMAND_LIFETIME_MS
  kept : e.state = .executed → t < e.completedAt + EDGE_SR_RESULT_TTL_MS

theorem young_free {t : Nat} {e : EdgeSrEntry Nat} (h : e.state = .free) : Young t e :=
  ⟨by simp [h], by simp [h]⟩

/-- A node that waits for a command it does not have waits behind a gap. -/
theorem EdgeSrNode.Settled.gap {n : EdgeSrNode τ} (hn : n.Settled) (hslots : SlotInv n) {i : Slot}
    (h : (n.entries i).state = .buffered) : n.gap = true := by
  have hlt := (n.entries i).seq.toNat_lt
  have hge := (hslots.buffered i h).1
  have hbase : n.base < 256 := by omega
  rw [EdgeSrNode.gap, decide_eq_true_eq]
  refine ⟨hbase, findEntry_eq_none.mpr fun j hj hseq => ?_⟩
  have hto : (n.entries j).seq.toNat = n.base := by
    rw [hseq, UInt8.toNat_ofNat_of_lt' hbase]
  cases hstate : (n.entries j).state with
  | free => exact hj hstate
  | buffered => exact hn j hstate hto
  | executed =>
      have := hslots.executed j hstate
      omega

theorem young_expired {n : EdgeSrNode Nat} (hslots : SlotInv n) (hn : n.Settled) (t : Nat) :
    ∀ i, Young t ((n.expired t).entries i) := by
  intro i
  constructor
  · intro hstate
    have hold : (n.entries i).state = .buffered := by
      rwa [expired_same (ne_free hstate (by decide))] at hstate
    have hage : t - _ < EDGE_COMMAND_LIFETIME_MS := expired_buffered (hn.gap hslots hold) hstate
    simp only [EDGE_COMMAND_LIFETIME_MS] at hage ⊢
    omega
  · intro hstate
    have hage : t - _ < EDGE_SR_RESULT_TTL_MS := expired_executed hstate
    simp only [EDGE_SR_RESULT_TTL_MS] at hage ⊢
    omega

theorem young_slot {inp : NodeInput} {tick : Bool} {t : Nat} {n : EdgeSrNode Nat}
    {es : List (NodeEvent Nat)} (hle : ∀ u ∈ readings es, t ≤ u) {i : Slot} {e : EdgeSrEntry Nat}
    (h : Young t (n.entries i)) (hslot : SlotMove inp tick t n es i e) : Young t e := by
  cases hslot with
  | kept => exact h
  | stored c =>
      have hstate : ((n.entries i).receive c.seq c.type c.args t).state = .buffered := rfl
      exact ⟨fun _ => Nat.lt_add_of_pos_right (by decide), by simp [hstate]⟩
  | completed result u htick hstate hes =>
      have hu : t ≤ u := hle u (by simp [hes, mem_readings])
      have hdone : ((n.entries i).complete result u).state = .executed := rfl
      refine ⟨by simp [hdone], fun _ => ?_⟩
      exact Nat.lt_of_le_of_lt hu (Nat.lt_add_of_pos_right (by decide))
  | resent htick hstate =>
      exact ⟨by simp [hstate], fun _ => h.kept hstate⟩

theorem young_move {inp : NodeInput} {tick : Bool} {t : Nat} {n n' : EdgeSrNode Nat}
    {es : List (NodeEvent Nat)} (h : NodeMove inp tick t n es n')
    (hle : ∀ u ∈ readings es, t ≤ u) (hn : ∀ i, Young t (n.entries i)) :
    ∀ i, Young t (n'.entries i) := by
  intro i
  by_cases hbusy : (n'.entries i).state = .free
  · exact young_free hbusy
  · exact young_slot hle (hn i) (slot_move h hbusy).2

/-- **After a call the slots in use are young**, and so they are in all scans but the first. -/
theorem young_call {n : EdgeSrNode Nat} (hslots : SlotInv n) (hn : n.Settled)
    (call : NodeCall Nat σ) (hmono : Nondecreasing (call.run n).events) :
    (∀ i, Young call.start ((call.run n).node.entries i)) ∧
      ∀ scan ∈ call.scans n, scan.run.node = n ∧ scan.now = call.start ∨
        (∀ i, Young call.start (scan.run.node.entries i)) ∧
          scan.now ∈ readings (call.run n).events := by
  have hinv := call_invariant (I := fun m es => call.start ∈ readings es ∧
    (Nondecreasing es → ∀ i, Young call.start (m.entries i))) n call ?_ ?_
  · refine ⟨hinv.1.2 hmono, fun scan hscan => ?_⟩
    rcases hinv.2 scan hscan with hfirst | ⟨es, hes, hle⟩
    · exact .inl hfirst
    · refine .inr ⟨hes.2 (hmono.of_le ((List.prefix_append _ _).trans hle)), ?_⟩
      obtain ⟨rest, hrest⟩ := hle
      rw [← hrest]
      simp
  · exact ⟨by simp, fun _ => young_expired hslots hn call.start⟩
  · intro m es es' m' hes hmove
    refine ⟨?_, fun hsorted => ?_⟩
    · rw [readings_append]
      exact List.mem_append_left _ hes.1
    · have hle : ∀ u ∈ readings es', call.start ≤ u := fun u hu => hsorted.le hes.1 hu
      exact young_move hmove hle (hes.2 (hsorted.of_le (List.prefix_append _ _)))

/-- Every reading of a call, and the start of the next one, come less than `2 ^ 31` after its
start. -/
def Paced : List (NodeCall Nat σ × List (NodeEvent Nat)) → Prop
  | [] => True
  | (call, es) :: rest =>
      (∀ t ∈ readings es, t < call.start + 2 ^ 31) ∧
        (∀ next ∈ rest.head?, next.1.start < call.start + 2 ^ 31) ∧ Paced rest

instance Paced.decide :
    (history : List (NodeCall Nat σ × List (NodeEvent Nat))) → Decidable (Paced history)
  | [] => .isTrue trivial
  | (_, _) :: rest =>
      have : Decidable (Paced rest) := Paced.decide rest
      inferInstanceAs (Decidable (_ ∧ _ ∧ _))

theorem inLife_of_young {n : EdgeSrNode Nat} {t now : Nat} (h : ∀ i, Young t (n.entries i))
    (hnow : now < t + 2 ^ 31) : n.InLife now := by
  intro i
  constructor
  · intro hstate
    have := (h i).waiting hstate
    simp only [EDGE_COMMAND_LIFETIME_MS] at this
    omega
  · intro hstate
    have := (h i).kept hstate
    simp only [EDGE_SR_RESULT_TTL_MS] at this
    omega

/-- **In a paced run no slot in use gets `2 ^ 32` old.** -/
theorem everyScan_inLife (calls : List (NodeCall Nat σ)) :
    ∀ n : EdgeSrNode Nat, SlotInv n → n.Settled → (∀ call ∈ calls.head?, n.InLife call.start) →
      Nondecreasing (logOf (runCalls n calls).2) → Paced (runCalls n calls).2 →
      EveryScan Scan.InLife n calls := by
  induction calls with
  | nil => exact fun _ _ _ _ _ _ => trivial
  | cons call rest ih =>
      intro n hslots hsettled hfirst hmono hpaced
      have hlog : logOf (runCalls n (call :: rest)).2 =
          (call.run n).events ++ logOf (runCalls (call.run n).node rest).2 := rfl
      rw [hlog] at hmono
      obtain ⟨hspan, hnext, hrest⟩ := hpaced
      obtain ⟨hyoung, hscans⟩ := young_call hslots hsettled call
        (hmono.of_le (List.prefix_append _ _))
      have hslots' : SlotInv (call.run n).node :=
        (nodeCall_acts n call).preserves (fun _ _ _ hI hact => slotInv_act hact hI) hslots
      refine ⟨fun scan hscan => ?_, ih _ hslots' (settled_call call hslots hsettled) ?_ ?_ hrest⟩
      · rcases hscans scan hscan with ⟨hnode, hnow⟩ | ⟨hages, hnow⟩
        · rw [Scan.InLife, hnode, hnow]
          exact hfirst call rfl
        · exact inLife_of_young hages (hspan _ hnow)
      · intro next hhead
        refine inLife_of_young hyoung (hnext (next, (next.run (call.run n).node).events) ?_)
        cases rest with
        | nil => cases hhead
        | cons first rest =>
            obtain rfl := Option.some.inj hhead
            rfl
      · rw [Nondecreasing, readings_append, List.pairwise_append] at hmono
        exact hmono.2.1

/-! ## The two runs side by side -/

/-- The nodes are the same but for the stamps of their slots. -/
structure SameButStamps {τ' : Type} (n : EdgeSrNode τ) (n' : EdgeSrNode τ') : Prop where
  session : n'.session = n.session
  base : n'.base = n.base
  active : n'.active = n.active
  state : ∀ i, (n'.entries i).state = (n.entries i).state
  seq : ∀ i, (n'.entries i).seq = (n.entries i).seq
  command : ∀ i, (n'.entries i).command = (n.entries i).command
  args : ∀ i, (n'.entries i).args = (n.entries i).args
  result : ∀ i, (n'.entries i).result = (n.entries i).result
  retries : ∀ i, (n'.entries i).retries = (n.entries i).retries

theorem sameButStamps_map {τ' : Type} (f : τ → τ') (n : EdgeSrNode τ) : SameButStamps n (n.map f) :=
  ⟨rfl, rfl, rfl, fun _ => rfl, fun _ => rfl, fun _ => rfl, fun _ => rfl, fun _ => rfl,
    fun _ => rfl⟩

/-- A call of the hooks `execute` and `emit`. -/
inductive HookCall
  | execute (c : Command) (result : List UInt8)
  | emit (type : UInt8) (payload : List UInt8)

def NodeEvent.hook? : NodeEvent τ → Option HookCall
  | .execute c result => some (.execute c result)
  | .emit type payload => some (.emit type payload)
  | _ => none

/-- What a log says of the hooks, in order. -/
def hookCalls (log : List (NodeEvent τ)) : List HookCall := log.filterMap NodeEvent.hook?

@[simp] theorem hookCalls_append (log es : List (NodeEvent τ)) :
    hookCalls (log ++ es) = hookCalls log ++ hookCalls es :=
  List.filterMap_append

theorem hookCalls_map {τ' : Type} (f : τ → τ') (log : List (NodeEvent τ)) :
    hookCalls (log.map (NodeEvent.map f)) = hookCalls log := by
  have hsame : NodeEvent.hook? ∘ NodeEvent.map f = NodeEvent.hook? := by
    funext e
    cases e <;> rfl
  rw [hookCalls, List.filterMap_map, hsame, hookCalls]

@[simp] theorem logOf_append (history rest : List (NodeCall τ σ × List (NodeEvent τ))) :
    logOf (history ++ rest) = logOf history ++ logOf rest :=
  List.flatMap_append

theorem logOf_mapHistory {τ' : Type} (f : τ → τ')
    (history : List (NodeCall τ σ × List (NodeEvent τ))) :
    logOf (mapHistory f history) = (logOf history).map (NodeEvent.map f) := by
  simp [logOf, mapHistory, List.flatMap_map, List.map_flatMap]

section Runs

variable [Clock τ]

theorem runCalls_append (calls rest : List (NodeCall τ σ)) (n : EdgeSrNode τ) :
    runCalls n (calls ++ rest) =
      ((runCalls (runCalls n calls).1 rest).1,
        (runCalls n calls).2 ++ (runCalls (runCalls n calls).1 rest).2) := by
  induction calls generalizing n with
  | nil => rfl
  | cons call calls ih =>
      simp only [List.cons_append, runCalls, ih]

end Runs

theorem Paced.of_append {history rest : List (NodeCall Nat σ × List (NodeEvent Nat))}
    (h : Paced (history ++ rest)) : Paced history := by
  induction history with
  | nil => trivial
  | cons entry history ih =>
      obtain ⟨hspan, hnext, hrest⟩ := h
      refine ⟨hspan, fun next hhead => hnext next ?_, ih hrest⟩
      cases history with
      | nil => cases hhead
      | cons first history => exact hhead

/-- **The wrapping clock is invisible.** The node runs by a clock that never decreases, and by the
same readings modulo `2 ^ 32`. If every call and the pause behind it take less than `2 ^ 31`, then
after any number of calls both runs have called the hooks `execute` and `emit` alike, and both nodes
are the same but for their stamps. -/
theorem wrapping_clock_invisible (memory : EdgeSrNode Nat) (calls : List (NodeCall Nat σ))
    (hmono : Nondecreasing (logOf (runCalls (edgeSrNodeInit memory) calls).2))
    (hpaced : Paced (runCalls (edgeSrNodeInit memory) calls).2) :
    ∀ before rest, calls = before ++ rest →
      let ideal := runCalls (edgeSrNodeInit memory) before
      let real := runCalls (edgeSrNodeInit (memory.map wrapMs)) (before.map (NodeCall.map wrapMs))
      SameButStamps ideal.1 real.1 ∧ hookCalls (logOf real.2) = hookCalls (logOf ideal.2) := by
  rintro before rest rfl
  intro ideal real
  rw [runCalls_append] at hmono hpaced
  have hlog : Nondecreasing (logOf ideal.2) := by
    refine hmono.of_le ?_
    rw [logOf_append]
    exact List.prefix_append _ _
  have hslots := (nodeInv_init memory).slots
  have hlife : EveryScan Scan.InLife (edgeSrNodeInit memory) before := by
    refine everyScan_inLife before _ hslots (settled_init memory) ?_ hlog hpaced.of_append
    intro call _ i
    exact ⟨(fun h => by cases h), (fun h => by cases h)⟩
  have hrun : real = (ideal.1.map wrapMs, mapHistory wrapMs ideal.2) :=
    wrap_run memory before hlog hlife
  rw [hrun]
  exact ⟨sameButStamps_map wrapMs _, by rw [logOf_mapHistory, hookCalls_map]⟩

/-! ## A run around the wrap -/

/-- A clock that each reading and each execution moves on. -/
def demoHooks : EdgeSrHooks Nat Nat where
  nowMs user := (user, user + 1)
  execute _ _ _ user := ([EDGE_RC_OK, 0, 7], user + 40)
  emit _ _ user := user

/-- A session is opened, a command comes twice around `2 ^ 32`, and two ticks follow. -/
def demoCalls (start : Nat) : List (NodeCall Nat Nat) :=
  [.onFrame demoHooks start EDGE_TYPE_SR_OPEN (some [0, 0, 0, 0, 0, 0, 0, 1]),
    .onFrame demoHooks (start + 10) EDGE_TYPE_SR_COMMAND (some [0, 0, 0, 0, 0, 0, 0, 1, 0, 0x20]),
    .onFrame demoHooks (start + 90) EDGE_TYPE_SR_COMMAND (some [0, 0, 0, 0, 0, 0, 0, 1, 0, 0x20]),
    .tick demoHooks (start + 700),
    .tick demoHooks (start + 6000)]

/-- Memory before `edge_sr_node_init`. -/
def demoMemory : EdgeSrNode Nat where
  session := 9
  base := 3
  active := true
  entries _ := ⟨5, 6, 7, .executed, 1, 2, [], [], 1⟩

theorem wrapping_clock_invisible_demo :
    SameButStamps (runCalls (edgeSrNodeInit demoMemory) (demoCalls (2 ^ 32 - 30))).1
      (runCalls (edgeSrNodeInit (demoMemory.map wrapMs))
        ((demoCalls (2 ^ 32 - 30)).map (NodeCall.map wrapMs))).1 :=
  (wrapping_clock_invisible demoMemory (demoCalls (2 ^ 32 - 30)) (by decide +kernel)
    (by decide +kernel) _ [] (List.append_nil _).symm).1

end EdgeGateway
