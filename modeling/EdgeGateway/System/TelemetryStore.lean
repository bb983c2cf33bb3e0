import EdgeGateway.Storage.Database
import EdgeGateway.System.WireSystem

set_option autoImplicit false

/-! # From telemetry frames to the tables

The way of a telemetry frame through the gateway: `GatewayCore::telemetry` posts it to the core
worker, `handleTelemetry` publishes and queues its readings, the writer of the pipeline hands them to
`insertBatch`, and this makes its calls of SQLite one by one. `reloadDatabase` queues a change of the
file in between. Every thread may take the next step, so a query may look at the tables between any
two calls.
-/

namespace EdgeGateway

open scoped List

variable {σ φ : Type}

/-- The rows of a frame that was received at `ts`. -/
def stampedRows (f : Frame × Int) : List (DataRow Nat) :=
  (decodeTelemetry f.1).map fun r => ⟨r.device, r.value, f.2⟩

/-- What `handleTelemetry` publishes of a reading. -/
def upMessage (formatValue : Nat → List UInt8) (r : TelemetryPipeline.Reading Nat) :
    List UInt8 × List UInt8 :=
  (bytes "gateway/up/" ++ r.device, formatValue r.value)

/-- `heard` are the frames that `dispatchFrame` took for telemetry, `tasks` those that wait for the
core worker, `stored` those whose readings the pipeline took. `executed` counts the events of the
writer that were begun, and `call` is the batch that is being inserted. -/
structure TelemetryStore (σ φ : Type) where
  heard : List (Frame × Int) := []
  tasks : List (Frame × Int) := []
  published : List (List UInt8 × List UInt8) := []
  stored : List (Frame × Int) := []
  opened : Nat := 2
  pipeline : TelemetryPipeline (Connected φ) (Connected φ) Nat
  executed : Nat := 0
  call : Option (Sqlite.Progress φ Nat) := none
  readDb : Connected φ
  sqlite : σ

namespace TelemetryStore

/-- The constructor of `GatewayApp` opens the write connection and the read connection. -/
def start (path : φ) (sqlite : σ) : TelemetryStore σ φ where
  pipeline := .init ⟨0, path⟩
  readDb := ⟨1, path⟩
  sqlite := sqlite

/-- `GatewayCore::telemetry`; a post may be refused. -/
def telemetry (accepted : Bool) (f : Frame × Int) (t : TelemetryStore σ φ) : TelemetryStore σ φ :=
  { t with
    heard := t.heard ++ [f]
    tasks := if accepted then t.tasks ++ [f] else t.tasks }

def handleTelemetry (formatValue : Nat → List UInt8) (f : Frame × Int)
    (t : TelemetryStore σ φ) : TelemetryStore σ φ :=
  let readings := decodeTelemetry f.1
  let (accepted, pipeline) := t.pipeline.submit readings f.2
  { t with
    published := t.published ++ readings.map (upMessage formatValue)
    stored := if accepted then t.stored ++ [f] else t.stored
    pipeline := pipeline }

/-- A reload that opened both connections; the callback publishes the second one. -/
def reloadDatabase (path : φ) (t : TelemetryStore σ φ) : TelemetryStore σ φ :=
  { t with
    opened := t.opened + 2
    pipeline := (t.pipeline.swapDatabase ⟨t.opened, path⟩ (some ⟨t.opened + 1, path⟩)).2 }

/-- The next thing the writer does to the outside. -/
def execute (t : TelemetryStore σ φ) : WriterEvent (Connected φ) (Connected φ) Nat →
    TelemetryStore σ φ
  | .insertBatch db rows => { t with executed := t.executed + 1, call := some (.begin db rows) }
  | .applied db => { t with executed := t.executed + 1, readDb := db }

/-- The writer is behind `insertBatch` and the callback, at a call of the queue. -/
def Executed (t : TelemetryStore σ φ) : Prop :=
  t.executed = t.pipeline.writer.events.length ∧ t.call = none

/-- Any thread takes the next step. -/
inductive Step (sql : Sqlite σ φ Nat) (formatValue : Nat → List UInt8) :
    TelemetryStore σ φ → TelemetryStore σ φ → Prop
  | telemetry (t : TelemetryStore σ φ) (accepted : Bool) (f : Frame × Int) :
      Step sql formatValue t (t.telemetry accepted f)
  | handle (t : TelemetryStore σ φ) (f : Frame × Int) (rest : List (Frame × Int))
      (h : t.tasks = f :: rest) :
      Step sql formatValue t ({ t with tasks := rest }.handleTelemetry formatValue f)
  | reload (t : TelemetryStore σ φ) (path : φ) : Step sql formatValue t (t.reloadDatabase path)
  | shutdown (t : TelemetryStore σ φ) :
      Step sql formatValue t { t with pipeline := t.pipeline.shutdown }
  | writer (t : TelemetryStore σ φ) (pipeline : TelemetryPipeline (Connected φ) (Connected φ) Nat)
      (h : t.Executed) (hstep : t.pipeline.writerStep = some pipeline) :
      Step sql formatValue t { t with pipeline := pipeline }
  | execute (t : TelemetryStore σ φ) (e : WriterEvent (Connected φ) (Connected φ) Nat)
      (h : t.call = none) (he : t.pipeline.writer.events[t.executed]? = some e) :
      Step sql formatValue t (t.execute e)
  | call (t : TelemetryStore σ φ) (p : Sqlite.Progress φ Nat) (h : t.call = some p) :
      Step sql formatValue t
        { t with call := (sql.advance t.sqlite p).1, sqlite := (sql.advance t.sqlite p).2 }

abbrev Run (sql : Sqlite σ φ Nat) (formatValue : Nat → List UInt8) :
    TelemetryStore σ φ → TelemetryStore σ φ → Prop :=
  Relation.ReflTransGen (Step sql formatValue)

end TelemetryStore

/-! ## The events of the writer -/

section Events

variable {γ ν : Type}

/-- The rows that go to a file. -/
def WriterEvent.rowsFor [DecidableEq φ] (file : φ) :
    WriterEvent (Connected φ) γ ν → List (DataRow ν)
  | .insertBatch db rows => if db.path = file then rows else []
  | .applied _ => []

def writtenFile [DecidableEq φ] (file : φ) (events : List (WriterEvent (Connected φ) γ ν)) :
    List (DataRow ν) :=
  events.flatMap (WriterEvent.rowsFor file)

/-- The connections that are written to. -/
def WriterEvent.db? : WriterEvent (Connected φ) γ ν → Option (Connected φ)
  | .insertBatch db _ => some db
  | .applied _ => none

def writtenDbs (events : List (WriterEvent (Connected φ) γ ν)) : List (Connected φ) :=
  events.filterMap WriterEvent.db?

def PipelineJob.target? : PipelineJob (Connected φ) γ ν → Option (Connected φ)
  | .batch _ => none
  | .swapDb db _ => some db

/-- The connections to change to. -/
def targets (jobs : List (PipelineJob (Connected φ) γ ν)) : List (Connected φ) :=
  jobs.filterMap PipelineJob.target?

def PipelineJob.rows? {δ : Type} : PipelineJob δ γ ν → Option (List (DataRow ν))
  | .batch rows => some rows
  | .swapDb _ _ => none

def batches {δ : Type} (jobs : List (PipelineJob δ γ ν)) : List (List (DataRow ν)) :=
  jobs.filterMap PipelineJob.rows?

/-- The same connection, or one that was opened later. -/
def NotAfter (c c' : Connected φ) : Prop := c = c' ∨ c.id < c'.id

/-- The connection for queries after an event. -/
def WriterEvent.publish (c : Connected φ) :
    WriterEvent (Connected φ) (Connected φ) ν → Connected φ
  | .insertBatch _ _ => c
  | .applied c' => c'

def readAfter (c : Connected φ) (events : List (WriterEvent (Connected φ) (Connected φ) ν)) :
    Connected φ :=
  events.foldl WriterEvent.publish c

theorem writtenDbs_applied (callbacks : List γ) :
    writtenDbs (φ := φ) (ν := ν) (callbacks.map WriterEvent.applied) = [] := by
  unfold writtenDbs
  rw [List.filterMap_map]
  exact List.filterMap_eq_nil_iff.mpr fun _ _ => rfl

theorem writtenFile_applied [DecidableEq φ] (file : φ) (callbacks : List γ) :
    writtenFile (ν := ν) file (callbacks.map WriterEvent.applied) = [] := by
  unfold writtenFile
  rw [List.flatMap_map]
  exact List.flatMap_eq_nil_iff.mpr fun _ _ => rfl

theorem targets_batches (rows : List (List (DataRow ν))) :
    targets (φ := φ) (γ := γ) (rows.map .batch) = [] := by
  unfold targets
  rw [List.filterMap_map]
  exact List.filterMap_eq_nil_iff.mpr fun _ _ => rfl

namespace Batched

variable {db db' : Connected φ} {jobs : List (PipelineJob (Connected φ) γ ν)}
  {events : List (WriterEvent (Connected φ) γ ν)}

/-- A later connection is not left again for an earlier one. -/
theorem ordered (h : Batched db jobs events db')
    (htargets : (db :: targets jobs).Pairwise fun c c' => c.id < c'.id) :
    db' ∈ db :: targets jobs ∧ (db :: writtenDbs events).Pairwise NotAfter ∧
      ∀ c ∈ db :: writtenDbs events, NotAfter c db' := by
  induction h with
  | nil =>
      refine ⟨List.mem_cons_self, List.pairwise_singleton _ _, ?_⟩
      intro c hc
      exact .inl (List.mem_singleton.mp hc)
  | @insertBatch last jobs events h rows hne hlimit ih =>
      have hjobs : targets (jobs ++ rows.map PipelineJob.batch) = targets jobs := by
        unfold targets
        rw [List.filterMap_append]
        exact (congrArg (_ ++ ·) (targets_batches rows)).trans (List.append_nil _)
      have hevents : writtenDbs (events ++ [.insertBatch last rows.flatten]) =
          writtenDbs events ++ [last] := List.filterMap_append
      rw [hjobs] at htargets ⊢
      obtain ⟨hmem, hpairwise, hbefore⟩ := ih htargets
      rw [hevents, ← List.cons_append]
      refine ⟨hmem, List.pairwise_append.mpr ⟨hpairwise, List.pairwise_singleton _ _, ?_⟩, ?_⟩
      · intro c hc c' hc'
        rw [List.mem_singleton.mp hc']
        exact hbefore c hc
      · intro c hc
        rcases List.mem_append.mp hc with hc | hc
        · exact hbefore c hc
        · exact .inl (List.mem_singleton.mp hc)
  | @swapDb last jobs events h next onApplied ih =>
      have hjobs : targets (jobs ++ [.swapDb next onApplied]) = targets jobs ++ [next] :=
        List.filterMap_append
      have hevents : writtenDbs (events ++ onApplied.toList.map WriterEvent.applied) =
          writtenDbs events := by
        unfold writtenDbs
        rw [List.filterMap_append]
        exact (congrArg (_ ++ ·) (writtenDbs_applied _)).trans (List.append_nil _)
      rw [hjobs, ← List.cons_append] at htargets ⊢
      obtain ⟨hold, -, hnext⟩ := List.pairwise_append.mp htargets
      obtain ⟨hmem, hpairwise, hbefore⟩ := ih hold
      have hlast : last.id < next.id := hnext last hmem next List.mem_cons_self
      rw [hevents]
      refine ⟨List.mem_append_right _ List.mem_cons_self, hpairwise, fun c hc => .inr ?_⟩
      rcases hbefore c hc with rfl | hlt
      · exact hlast
      · exact hlt.trans hlast

end Batched

/-- The callback of a change publishes a connection to the same file. -/
def PipelineJob.Publishes : PipelineJob (Connected φ) (Connected φ) ν → Prop
  | .batch _ => True
  | .swapDb db onApplied => ∃ c, onApplied = some c ∧ c.path = db.path

/-- Queries go to the file that the writer writes to. -/
theorem Batched.reads {db db' c : Connected φ}
    {jobs : List (PipelineJob (Connected φ) (Connected φ) ν)}
    {events : List (WriterEvent (Connected φ) (Connected φ) ν)} (h : Batched db jobs events db')
    (hjobs : ∀ job ∈ jobs, job.Publishes) (hc : c.path = db.path) :
    (readAfter c events).path = db'.path ∧
      ∀ front db rows rest, events = front ++ .insertBatch db rows :: rest →
        (readAfter c front).path = db.path := by
  induction h with
  | nil => exact ⟨hc, fun front _ _ _ h => by cases front <;> cases h⟩
  | @insertBatch last jobs events h rows hne hlimit ih =>
      obtain ⟨hread, hfronts⟩ := ih (fun job hjob => hjobs job (List.mem_append_left _ hjob))
      refine ⟨?_, fun front db rows' rest hsplit => ?_⟩
      · unfold readAfter at hread ⊢
        rw [List.foldl_append]
        exact hread
      · rcases append_eq_cut hsplit with ⟨rest', hevents, -⟩ | ⟨new, hfront, hnew⟩
        · exact hfronts front db rows' rest' hevents
        · cases new with
          | nil =>
              cases hnew
              rw [hfront, List.append_nil]
              exact hread
          | cons e new => cases new <;> cases hnew
  | @swapDb last jobs events h next onApplied ih =>
      obtain ⟨hread, hfronts⟩ := ih (fun job hjob => hjobs job (List.mem_append_left _ hjob))
      obtain ⟨c', rfl, hc'⟩ := hjobs _ (List.mem_append_right _ List.mem_cons_self)
      refine ⟨?_, fun front db rows' rest hsplit => ?_⟩
      · unfold readAfter
        rw [List.foldl_append]
        exact hc'
      · rcases append_eq_cut hsplit with ⟨rest', hevents, -⟩ | ⟨new, hfront, hnew⟩
        · exact hfronts front db rows' rest' hevents
        · cases new with
          | nil => cases hnew
          | cons e new => cases new <;> cases hnew

end Events

/-! ## The writer's log -/

section Writer

variable {δ γ ν : Type}

/-- The writer only adds to what it has done. -/
theorem flush_events (w : Writer δ γ ν) : w.events <+: w.flush.events := by
  unfold Writer.flush
  split_ifs
  · exact List.prefix_refl _
  · exact List.prefix_append _ _

theorem handle_events (w : Writer δ γ ν) (job : PipelineJob δ γ ν) :
    w.events <+: (w.handle job).events := by
  cases job with
  | batch rows =>
      unfold Writer.handle
      dsimp only
      split_ifs
      · exact flush_events { w with rows := w.rows ++ rows }
      · exact List.prefix_refl _
  | swapDb db onApplied =>
      unfold Writer.handle
      dsimp only
      refine (flush_events w).trans (List.IsPrefix.trans ?_ (flush_events _))
      exact List.prefix_append _ _

theorem writerStep_spec {s s' : TelemetryPipeline δ γ ν} (h : s.writerStep = some s') :
    s'.accepted = s.accepted ∧ s.writer.events <+: s'.writer.events := by
  unfold TelemetryPipeline.writerStep at h
  split at h
  · split at h
    · obtain rfl := Option.some.inj h
      exact ⟨rfl, handle_events _ _⟩
    · obtain rfl := Option.some.inj h
      exact ⟨rfl, List.prefix_refl _⟩
    · cases h
  · split at h
    · obtain rfl := Option.some.inj h
      exact ⟨rfl, handle_events _ _⟩
    · obtain rfl := Option.some.inj h
      exact ⟨rfl, flush_events _⟩
  · cases h

end Writer

/-! ## Invariant -/

namespace TelemetryStore

variable {sql : Sqlite σ φ Nat} {formatValue : Nat → List UInt8} {path : φ}
  {t t' : TelemetryStore σ φ}

/-- What is queued comes from frames that were heard, and the connections come in order. -/
structure Inv (formatValue : Nat → List UInt8) (path : φ) (t : TelemetryStore σ φ) : Prop where
  run : TelemetryPipeline.Run (.init ⟨0, path⟩) t.pipeline
  opened : 2 ≤ t.opened
  increasing : (⟨0, path⟩ :: targets t.pipeline.accepted).Pairwise fun c c' => c.id < c'.id
  fresh : ∀ c ∈ targets t.pipeline.accepted, 2 ≤ c.id ∧ c.id < t.opened
  publishes : ∀ job ∈ t.pipeline.accepted, job.Publishes
  heard : (t.stored ++ t.tasks).Sublist t.heard
  batches : batches t.pipeline.accepted = (t.stored.map stampedRows).filter (· ≠ [])
  published : t.published ++ (t.tasks.flatMap fun f => (decodeTelemetry f.1).map
    (upMessage formatValue)) <+
      t.heard.flatMap fun f => (decodeTelemetry f.1).map (upMessage formatValue)
  executed : t.executed ≤ t.pipeline.writer.events.length
  readDb : t.readDb = readAfter ⟨1, path⟩ (t.pipeline.writer.events.take t.executed)

theorem inv_start (path : φ) (s : σ) : Inv formatValue path (start path s) where
  run := .refl
  opened := le_refl 2
  increasing := List.pairwise_singleton _ _
  fresh := fun _ h => absurd h List.not_mem_nil
  publishes := fun _ h => absurd h List.not_mem_nil
  heard := List.Sublist.refl _
  batches := rfl
  published := List.Sublist.refl _
  executed := le_refl 0
  readDb := rfl

theorem flatMap_cons_tasks {α : Type} (g : Frame × Int → List α) (published : List α)
    (f : Frame × Int) (rest : List (Frame × Int)) :
    published ++ (f :: rest).flatMap g = (published ++ g f) ++ rest.flatMap g := by
  rw [List.flatMap_cons, List.append_assoc]

theorem Inv.telemetry (h : t.Inv formatValue path) (accepted : Bool) (f : Frame × Int) :
    (t.telemetry accepted f).Inv formatValue path := by
  refine { h with heard := ?_, published := ?_ }
  · show t.stored ++ (if accepted then t.tasks ++ [f] else t.tasks) <+ t.heard ++ [f]
    split_ifs
    · rw [← List.append_assoc]
      exact h.heard.append_right [f]
    · exact h.heard.trans (List.sublist_append_left _ _)
  · show t.published ++ (if accepted then t.tasks ++ [f] else t.tasks).flatMap _ <+
      (t.heard ++ [f]).flatMap _
    rw [List.flatMap_append]
    split_ifs
    · rw [List.flatMap_append, ← List.append_assoc]
      exact h.published.append_right _
    · exact h.published.trans (List.sublist_append_left _ _)

/-- A frame is stored with its rows, refused, or has none. -/
theorem Inv.handleTelemetry (h : t.Inv formatValue path) {f : Frame × Int}
    {rest : List (Frame × Int)} (htasks : t.tasks = f :: rest) :
    ({ t with tasks := rest }.handleTelemetry formatValue f).Inv formatValue path := by
  have hpublished : (t.published ++ (decodeTelemetry f.1).map (upMessage formatValue)) ++
      rest.flatMap (fun f => (decodeTelemetry f.1).map (upMessage formatValue)) <+
        t.heard.flatMap fun f => (decodeTelemetry f.1).map (upMessage formatValue) := by
    have hcons := flatMap_cons_tasks
      (fun f => (decodeTelemetry f.1).map (upMessage formatValue)) t.published f rest
    rw [← hcons, ← htasks]
    exact h.published
  have hstored : (t.stored ++ [f]) ++ rest <+ t.heard := by
    rw [List.append_assoc, List.singleton_append, ← htasks]
    exact h.heard
  have hrefused : t.stored ++ rest <+ t.heard :=
    ((List.sublist_cons_self f rest).append_left _).trans (htasks ▸ h.heard)
  have hrun := h.run.tail (.submit _ (decodeTelemetry f.1) f.2)
  unfold TelemetryStore.handleTelemetry
  unfold TelemetryPipeline.submit at hrun ⊢
  by_cases hempty : decodeTelemetry f.1 = []
  · -- nothing to store
    have hrows : stampedRows f = [] := by
      unfold stampedRows
      rw [hempty]
      rfl
    dsimp only
    rw [if_pos hempty]
    refine { h with heard := hstored, batches := ?_, published := hpublished }
    show _ = ((t.stored ++ [f]).map stampedRows).filter (· ≠ [])
    rw [List.map_append, List.filter_append, List.map_singleton, hrows]
    exact h.batches.trans (List.append_nil _).symm
  · have hrows : stampedRows f ≠ [] := by
      unfold stampedRows
      exact fun hnil => hempty (List.map_eq_nil_iff.mp hnil)
    dsimp only at hrun ⊢
    rw [if_neg hempty] at hrun ⊢
    rcases ThreadSafeQueue.tryPush_cases
      (.batch ((decodeTelemetry f.1).map fun r => ⟨r.device, r.value, f.2⟩)) t.pipeline.queue
      with hpush | ⟨-, hpush⟩
    · rw [hpush] at hrun ⊢
      exact { h with run := hrun, heard := hrefused, published := hpublished }
    · rw [hpush] at hrun ⊢
      have htargets : targets (t.pipeline.accepted ++ [.batch (stampedRows f)]) =
          targets t.pipeline.accepted :=
        List.filterMap_append.trans (List.append_nil _)
      refine { h with
        run := hrun
        increasing := ?_
        fresh := ?_
        publishes := ?_
        heard := hstored
        batches := ?_
        published := hpublished }
      · show (_ :: targets (t.pipeline.accepted ++ [.batch (stampedRows f)])).Pairwise _
        rw [htargets]
        exact h.increasing
      · show ∀ c ∈ targets (t.pipeline.accepted ++ [.batch (stampedRows f)]), _
        rw [htargets]
        exact h.fresh
      · intro job hjob
        rcases List.mem_append.mp hjob with hjob | hjob
        · exact h.publishes job hjob
        · rw [List.mem_singleton.mp hjob]
          exact trivial
      · show EdgeGateway.batches (t.pipeline.accepted ++ [.batch (stampedRows f)]) =
          ((t.stored ++ [f]).map stampedRows).filter (· ≠ [])
        rw [List.map_append, List.filter_append, ← h.batches]
        refine List.filterMap_append.trans (congrArg (_ ++ ·) ?_)
        rw [List.map_singleton, List.filter_singleton, decide_eq_true hrows]
        rfl

theorem Inv.reloadDatabase (h : t.Inv formatValue path) (file : φ) :
    (t.reloadDatabase file).Inv formatValue path := by
  have hrun := h.run.tail
    (.swapDatabase _ ⟨t.opened, file⟩ (some ⟨t.opened + 1, file⟩))
  have hopened : 2 ≤ t.opened + 2 := Nat.le_add_left 2 t.opened
  have hfresh : ∀ c ∈ targets t.pipeline.accepted, 2 ≤ c.id ∧ c.id < t.opened + 2 :=
    fun c hc => ⟨(h.fresh c hc).1, Nat.lt_add_right 2 (h.fresh c hc).2⟩
  unfold TelemetryStore.reloadDatabase
  unfold TelemetryPipeline.swapDatabase at hrun ⊢
  rw [ThreadSafeQueue.pushFor_eq_tryPush] at hrun ⊢
  rcases ThreadSafeQueue.tryPush_cases
    (PipelineJob.swapDb (ν := Nat) (⟨t.opened, file⟩ : Connected φ)
      (some (⟨t.opened + 1, file⟩ : Connected φ))) t.pipeline.queue with hpush | ⟨-, hpush⟩
  · rw [hpush] at hrun ⊢
    exact { h with run := hrun, opened := hopened, fresh := hfresh }
  · rw [hpush] at hrun ⊢
    have hjobs : targets (t.pipeline.accepted ++
        [.swapDb ⟨t.opened, file⟩ (some ⟨t.opened + 1, file⟩)]) =
          targets t.pipeline.accepted ++ [⟨t.opened, file⟩] := List.filterMap_append
    refine { h with
      run := hrun
      opened := hopened
      increasing := ?_
      fresh := ?_
      publishes := ?_
      batches := ?_ }
    · show (_ :: targets (t.pipeline.accepted ++
        [.swapDb ⟨t.opened, file⟩ (some ⟨t.opened + 1, file⟩)])).Pairwise _
      rw [hjobs, ← List.cons_append]
      refine List.pairwise_append.mpr ⟨h.increasing, List.pairwise_singleton _ _, ?_⟩
      intro c hc c' hc'
      rw [List.mem_singleton.mp hc']
      rcases List.mem_cons.mp hc with rfl | hc
      · exact Nat.lt_of_lt_of_le Nat.two_pos h.opened
      · exact (h.fresh c hc).2
    · show ∀ c ∈ targets (t.pipeline.accepted ++
        [.swapDb ⟨t.opened, file⟩ (some ⟨t.opened + 1, file⟩)]), _
      rw [hjobs]
      intro c hc
      rcases List.mem_append.mp hc with hc | hc
      · exact hfresh c hc
      · rw [List.mem_singleton.mp hc]
        exact ⟨h.opened, Nat.lt_add_of_pos_right Nat.two_pos⟩
    · intro job hjob
      rcases List.mem_append.mp hjob with hjob | hjob
      · exact h.publishes job hjob
      · rw [List.mem_singleton.mp hjob]
        exact ⟨_, rfl, rfl⟩
    · show EdgeGateway.batches (t.pipeline.accepted ++
        [.swapDb ⟨t.opened, file⟩ (some ⟨t.opened + 1, file⟩)]) = _
      rw [← h.batches]
      exact List.filterMap_append.trans (List.append_nil _)

theorem take_of_begins {α : Type} {xs ys : List α} (h : xs <+: ys) {n : Nat}
    (hn : n ≤ xs.length) : ys.take n = xs.take n := by
  obtain ⟨rest, rfl⟩ := h
  exact List.take_append_of_le_length hn

/-- The first `n + 1` events. -/
theorem take_succ_of {α : Type} {xs : List α} {n : Nat} {x : α} (h : xs[n]? = some x) :
    xs.take (n + 1) = xs.take n ++ [x] := by
  rw [List.take_add_one, h]
  rfl

theorem Inv.execute (h : t.Inv formatValue path)
    {e : WriterEvent (Connected φ) (Connected φ) Nat}
    (he : t.pipeline.writer.events[t.executed]? = some e) :
    (t.execute e).Inv formatValue path := by
  have hlength : t.executed + 1 ≤ t.pipeline.writer.events.length :=
    (List.getElem?_eq_some_iff.mp he).1
  have hread : readAfter ⟨1, path⟩ (t.pipeline.writer.events.take (t.executed + 1)) =
      e.publish t.readDb := by
    rw [take_succ_of he, h.readDb]
    exact List.foldl_append
  cases e with
  | insertBatch db rows => exact { h with executed := hlength, readDb := hread.symm }
  | applied db => exact { h with executed := hlength, readDb := hread.symm }

theorem Inv.step (h : t.Inv formatValue path) (hstep : Step sql formatValue t t') :
    t'.Inv formatValue path := by
  cases hstep with
  | telemetry accepted f => exact h.telemetry accepted f
  | handle f rest htasks => exact h.handleTelemetry htasks
  | reload file => exact h.reloadDatabase file
  | shutdown => exact { h with run := h.run.tail (.shutdown _) }
  | writer pipeline hexecuted hpipeline =>
      obtain ⟨haccepted, hevents⟩ := writerStep_spec hpipeline
      refine { h with
        run := h.run.tail (.writer _ _ hpipeline)
        increasing := ?_
        fresh := ?_
        publishes := ?_
        batches := ?_
        executed := h.executed.trans hevents.length_le
        readDb := ?_ }
      · show (_ :: targets pipeline.accepted).Pairwise _
        rw [haccepted]
        exact h.increasing
      · show ∀ c ∈ targets pipeline.accepted, _
        rw [haccepted]
        exact h.fresh
      · show ∀ job ∈ pipeline.accepted, _
        rw [haccepted]
        exact h.publishes
      · show EdgeGateway.batches pipeline.accepted = _
        rw [haccepted]
        exact h.batches
      · show t.readDb = readAfter _ (pipeline.writer.events.take t.executed)
        rw [take_of_begins hevents h.executed]
        exact h.readDb
  | execute e hcall he => exact h.execute he
  | call p hcall => exact { h with }

theorem inv_run {s : σ} (h : Run sql formatValue (start path s) t) : t.Inv formatValue path := by
  induction h with
  | refl => exact inv_start path s
  | tail _ hstep ih => exact ih.step hstep

/-- What the writer has done belongs to jobs that it has taken. -/
theorem Inv.batched (h : t.Inv formatValue path) :
    ∃ done, done <+: t.pipeline.accepted ∧
      Batched ⟨0, path⟩ done t.pipeline.writer.events t.pipeline.writer.db := by
  obtain ⟨done, merged, haccepted, hwriter⟩ := (TelemetryPipeline.inv_run h.run).writer
  refine ⟨done, ?_, hwriter.batched⟩
  rw [haccepted, List.append_assoc]
  exact List.prefix_append _ _

theorem Inv.connections (h : t.Inv formatValue path) :
    ((⟨0, path⟩ : Connected φ) :: writtenDbs t.pipeline.writer.events).Pairwise NotAfter := by
  obtain ⟨done, hdone, hbatched⟩ := h.batched
  refine (hbatched.ordered ?_).2.1
  exact h.increasing.sublist ((hdone.sublist.filterMap _).cons_cons _)

/-- A step that has nothing to do with SQLite. -/
structure Apart (t t' : TelemetryStore σ φ) : Prop where
  events : t'.pipeline.writer.events.take t'.executed =
    t.pipeline.writer.events.take t.executed
  call : t'.call = t.call
  sqlite : t'.sqlite = t.sqlite

theorem submit_writer {δ γ ν : Type} (s : TelemetryPipeline δ γ ν)
    (readings : List (TelemetryPipeline.Reading ν)) (ts : Int) :
    (s.submit readings ts).2.writer = s.writer := by
  unfold TelemetryPipeline.submit
  split_ifs <;> rfl

theorem Inv.step_cases (h : t.Inv formatValue path) (hstep : Step sql formatValue t t') :
    Apart t t' ∨
      (∃ e, t.call = none ∧ t.pipeline.writer.events[t.executed]? = some e ∧ t' = t.execute e) ∨
      ∃ p, t.call = some p ∧ t' =
        { t with call := (sql.advance t.sqlite p).1, sqlite := (sql.advance t.sqlite p).2 } := by
  cases hstep with
  | telemetry => exact .inl ⟨rfl, rfl, rfl⟩
  | handle f rest htasks =>
      refine .inl ⟨?_, rfl, rfl⟩
      show (t.pipeline.submit (decodeTelemetry f.1) f.2).2.writer.events.take _ = _
      rw [submit_writer]
      rfl
  | reload => exact .inl ⟨rfl, rfl, rfl⟩
  | shutdown => exact .inl ⟨rfl, rfl, rfl⟩
  | writer pipeline hexecuted hpipeline =>
      exact .inl ⟨take_of_begins (writerStep_spec hpipeline).2 h.executed, rfl, rfl⟩
  | execute e hcall he => exact .inr (.inl ⟨e, hcall, he, rfl⟩)
  | call p hp => exact .inr (.inr ⟨p, hp, rfl⟩)

/-- The batch under way is the last event that was begun. -/
def Current (t : TelemetryStore σ φ) : Prop :=
  ∀ p, t.call = some p → ∃ front rows,
    t.pipeline.writer.events.take t.executed = front ++ [.insertBatch p.db rows]

/-- Queries go to the file that the writer writes to, also while a batch is under way. -/
theorem Inv.reads (h : t.Inv formatValue path) (hcurrent : t.Current) :
    (∀ p, t.call = some p → t.readDb.path = p.db.path) ∧
      (t.Executed → t.readDb.path = t.pipeline.writer.db.path) := by
  obtain ⟨done, hdone, hbatched⟩ := h.batched
  obtain ⟨hend, hfronts⟩ := hbatched.reads (c := ⟨1, path⟩)
    (fun job hjob => h.publishes job (hdone.subset hjob)) rfl
  refine ⟨fun p hp => ?_, fun hexecuted => ?_⟩
  · obtain ⟨front, rows, htake⟩ := hcurrent p hp
    have hevents : t.pipeline.writer.events =
        front ++ .insertBatch p.db rows :: t.pipeline.writer.events.drop t.executed := by
      conv_lhs => rw [← List.take_append_drop t.executed t.pipeline.writer.events, htake,
        List.append_assoc]
      rfl
    have hread : t.readDb = readAfter ⟨1, path⟩ front := by
      rw [h.readDb, htake]
      exact List.foldl_append
    rw [hread]
    exact hfronts front p.db rows _ hevents
  · rw [h.readDb, hexecuted.1, List.take_length]
    exact hend

/-- A batch begins on the connection of the last one, or on one opened later. -/
theorem Inv.next_connection (h : t.Inv formatValue path) {last db : Connected φ}
    {rows : List (DataRow Nat)}
    (hlast : last ∈ (⟨0, path⟩ : Connected φ) ::
      writtenDbs (t.pipeline.writer.events.take t.executed))
    (he : t.pipeline.writer.events[t.executed]? = some (.insertBatch db rows)) :
    NotAfter last db := by
  have hevents : writtenDbs t.pipeline.writer.events =
      writtenDbs (t.pipeline.writer.events.take t.executed) ++
        db :: writtenDbs (t.pipeline.writer.events.drop (t.executed + 1)) := by
    conv_lhs => rw [← List.take_append_drop (t.executed + 1) t.pipeline.writer.events,
      take_succ_of he, List.append_assoc]
    exact List.filterMap_append
  have hconnections := h.connections
  rw [hevents, ← List.cons_append] at hconnections
  exact (List.pairwise_append.mp hconnections).2.2 last hlast db List.mem_cons_self

/-! ## What is on disk -/

section Disk

variable [DecidableEq φ] {disk : σ → Disk φ Nat} {d₀ : Disk φ Nat}

/-- The rows of the batch that is being inserted that are not handed over yet. -/
def rest (t : TelemetryStore σ φ) : List (DataRow Nat) := (t.call.map Sqlite.Progress.rows).getD []

/-- Whatever failed: what became permanent, what is in the transaction of the latest connection, and
what is still to come of the batch, are rows given so far, in order. -/
structure Kept (disk : σ → Disk φ Nat) (d₀ : Disk φ Nat) (path : φ) (t : TelemetryStore σ φ)
    (last : Connected φ) : Prop where
  used : last ∈ (⟨0, path⟩ : Connected φ) ::
    writtenDbs (t.pipeline.writer.events.take t.executed)
  later : ∀ c, last.id < c.id → (disk t.sqlite).pending c = none
  call : ∀ p, t.call = some p → p.db = last
  rows : ∀ file, ∃ added, (disk t.sqlite).table file = d₀.table file ++ added ∧
    added ++ (if last.path = file then (disk t.sqlite).left last ++ t.rest.map DataRow.bound
      else []) <+
        (writtenFile file (t.pipeline.writer.events.take t.executed)).map DataRow.bound

theorem writtenFile_concat {γ ν : Type} (file : φ)
    (events : List (WriterEvent (Connected φ) γ ν)) (e : WriterEvent (Connected φ) γ ν) :
    writtenFile file (events ++ [e]) = writtenFile file events ++ e.rowsFor file := by
  unfold writtenFile
  rw [List.flatMap_append, List.flatMap_singleton]

theorem Kept.execute {last : Connected φ} (h : Kept disk d₀ path t last)
    (hinv : t.Inv formatValue path) (hcall : t.call = none)
    {e : WriterEvent (Connected φ) (Connected φ) Nat}
    (he : t.pipeline.writer.events[t.executed]? = some e) :
    ∃ last', Kept disk d₀ path (t.execute e) last' := by
  have htake := take_succ_of he
  cases e with
  | applied db =>
      refine ⟨last, ?_, h.later, fun p hp => h.call p hp, fun file => ?_⟩
      · show last ∈ _ :: writtenDbs (t.pipeline.writer.events.take (t.executed + 1))
        rw [htake]
        unfold writtenDbs
        rw [List.filterMap_append]
        exact (List.append_nil _).symm ▸ h.used
      · obtain ⟨added, htable, hsub⟩ := h.rows file
        refine ⟨added, htable, ?_⟩
        show _ <+ (writtenFile file (t.pipeline.writer.events.take (t.executed + 1))).map _
        rw [htake, writtenFile_concat]
        exact (List.append_nil _).symm ▸ hsub
  | insertBatch db rows =>
      have hnext := hinv.next_connection h.used he
      refine ⟨db, ?_, ?_, ?_, ?_⟩
      · show db ∈ _ :: writtenDbs (t.pipeline.writer.events.take (t.executed + 1))
        rw [htake]
        unfold writtenDbs
        rw [List.filterMap_append]
        exact List.mem_cons_of_mem _ (List.mem_append_right _ List.mem_cons_self)
      · intro c hc
        rcases hnext with rfl | hlt
        · exact h.later c hc
        · exact h.later c (hlt.trans hc)
      · intro p hp
        obtain rfl := Option.some.inj hp
        rfl
      · intro file
        obtain ⟨added, htable, hsub⟩ := h.rows file
        have hrest : t.rest = [] := by
          unfold rest
          rw [hcall]
          rfl
        rw [hrest, List.map_nil, List.append_nil] at hsub
        refine ⟨added, htable, ?_⟩
        show added ++ (if db.path = file then
            (disk t.sqlite).left db ++ rows.map DataRow.bound else []) <+
          (writtenFile file (t.pipeline.writer.events.take (t.executed + 1))).map _
        rw [htake, writtenFile_concat, List.map_append]
        show _ <+ _ ++ (if db.path = file then rows else []).map _
        -- a new connection has no transaction; that of the old one is given up
        have hold : added ++ (if db.path = file then (disk t.sqlite).left db else []) <+
            (writtenFile file (t.pipeline.writer.events.take t.executed)).map DataRow.bound := by
          rcases hnext with rfl | hlt
          · exact hsub
          · have hnone : (disk t.sqlite).left db = [] := by
              unfold Disk.left
              rw [h.later db hlt]
              rfl
            rw [hnone, ite_self, List.append_nil]
            exact (List.sublist_append_left _ _).trans hsub
        split_ifs at hold ⊢ with hfile
        · rw [← List.append_assoc]
          exact hold.append_right _
        · simpa using hold

theorem Kept.advance {last : Connected φ} (h : Kept disk d₀ path t last)
    (hsql : sql.Lawful disk) {p : Sqlite.Progress φ Nat} (hp : t.call = some p) :
    Kept disk d₀ path
      { t with call := (sql.advance t.sqlite p).1, sqlite := (sql.advance t.sqlite p).2 } last := by
  obtain ⟨given, rest, hrows, hkept, hmore, hend⟩ := hsql.kept_advance p t.sqlite
  have hdb : p.db = last := h.call p hp
  rw [hdb] at hkept
  obtain ⟨⟨new, htable, hnew⟩, hothers⟩ := hkept
  have hrest : TelemetryStore.rest
      { t with call := (sql.advance t.sqlite p).1, sqlite := (sql.advance t.sqlite p).2 } =
        rest := by
    unfold TelemetryStore.rest
    rcases hnext : (sql.advance t.sqlite p).1 with _ | p'
    · exact (hend hnext).symm
    · exact (hmore p' hnext).2
  have hold : t.rest = given ++ rest := by
    unfold TelemetryStore.rest
    rw [hp]
    exact hrows
  refine ⟨h.used, fun c hc => ?_, fun p' hp' => (hmore p' hp').1.trans hdb, fun file => ?_⟩
  · show (disk (sql.advance t.sqlite p).2).pending c = none
    rw [hothers c fun heq => by rw [heq] at hc; exact lt_irrefl _ hc]
    exact h.later c hc
  · obtain ⟨added, hadded, hsub⟩ := h.rows file
    rw [hold, List.map_append] at hsub
    rw [hrest]
    by_cases hfile : last.path = file
    · rw [if_pos hfile] at hsub ⊢
      refine ⟨added ++ new, ?_, ?_⟩
      · show (disk (sql.advance t.sqlite p).2).table file = _
        rw [htable, ← hfile, Function.update_self, hfile, hadded, List.append_assoc]
      · refine List.Sublist.trans ?_ hsub
        show (added ++ new) ++ ((disk (sql.advance t.sqlite p).2).left last ++
          rest.map DataRow.bound) <+ _
        calc (added ++ new) ++ ((disk (sql.advance t.sqlite p).2).left last ++
              rest.map DataRow.bound)
            = added ++ ((new ++ (disk (sql.advance t.sqlite p).2).left last) ++
                rest.map DataRow.bound) := by simp only [List.append_assoc]
          _ <+ added ++ (((disk t.sqlite).left last ++ given.map DataRow.bound) ++
                rest.map DataRow.bound) := (hnew.append_right _).append_left added
          _ = _ := by simp only [List.append_assoc]
    · rw [if_neg hfile] at hsub ⊢
      refine ⟨added, ?_, hsub⟩
      show (disk (sql.advance t.sqlite p).2).table file = _
      rw [htable, Function.update_of_ne (fun heq => hfile heq.symm), hadded]

theorem Kept.apart {last : Connected φ} (h : Kept disk d₀ path t last) (hapart : Apart t t') :
    Kept disk d₀ path t' last := by
  have hrest : t'.rest = t.rest := by
    unfold rest
    rw [hapart.call]
  refine ⟨?_, ?_, fun p hp => h.call p (hapart.call ▸ hp), fun file => ?_⟩
  · rw [hapart.events]
    exact h.used
  · rw [hapart.sqlite]
    exact h.later
  · rw [hapart.events, hapart.sqlite, hrest]
    exact h.rows file

theorem Kept.step {last : Connected φ} (h : Kept disk d₀ path t last)
    (hinv : t.Inv formatValue path) (hsql : sql.Lawful disk)
    (hstep : Step sql formatValue t t') : ∃ last', Kept disk d₀ path t' last' := by
  rcases hinv.step_cases hstep with hapart | ⟨e, hcall, he, rfl⟩ | ⟨p, hp, rfl⟩
  · exact ⟨last, h.apart hapart⟩
  · exact h.execute hinv hcall he
  · exact ⟨last, h.advance hsql hp⟩

/-- Without a failure: the batches in `front` are on disk, and of the one under way nothing is. -/
structure Settled (disk : σ → Disk φ Nat) (d₀ : Disk φ Nat) (t : TelemetryStore σ φ)
    (front : List (WriterEvent (Connected φ) (Connected φ) Nat)) : Prop where
  table : ∀ file, (disk t.sqlite).table file =
    d₀.table file ++ (writtenFile file front).map DataRow.bound
  idle : t.call = none → t.pipeline.writer.events.take t.executed = front ∧
    ∀ c, (disk t.sqlite).pending c = none
  busy : ∀ p, t.call = some p → ∃ given,
    t.pipeline.writer.events.take t.executed = front ++ [.insertBatch p.db given] ∧
      Sqlite.Within given (disk t.sqlite) p ∧ ∀ c, c ≠ p.db → (disk t.sqlite).pending c = none

variable {front : List (WriterEvent (Connected φ) (Connected φ) Nat)}

theorem settled_start {s : σ} (hfresh : ∀ c, (disk s).pending c = none) :
    Settled disk (disk s) (start path s) [] where
  table := fun _ => (List.append_nil _).symm
  idle := fun _ => ⟨rfl, hfresh⟩
  busy := fun _ h => by cases h

theorem Settled.apart (h : Settled disk d₀ t front) (hapart : Apart t t') :
    Settled disk d₀ t' front := by
  obtain ⟨hevents, hcall, hsqlite⟩ := hapart
  constructor
  · rw [hsqlite]
    exact h.table
  · rw [hsqlite, hcall, hevents]
    exact h.idle
  · rw [hsqlite, hcall, hevents]
    exact h.busy

theorem Settled.execute (h : Settled disk d₀ t front) (hcall : t.call = none)
    {e : WriterEvent (Connected φ) (Connected φ) Nat}
    (he : t.pipeline.writer.events[t.executed]? = some e) :
    ∃ front', Settled disk d₀ (t.execute e) front' := by
  obtain ⟨htake, hnone⟩ := h.idle hcall
  have hsucc := take_succ_of he
  rw [htake] at hsucc
  cases e with
  | applied db =>
      refine ⟨front ++ [.applied db], fun file => ?_, fun _ => ?_, fun p hp => ?_⟩
      · rw [writtenFile_concat]
        exact (List.append_nil (writtenFile file front)).symm ▸ h.table file
      · exact ⟨hsucc, hnone⟩
      · exact absurd (hcall.symm.trans hp) fun heq => by cases heq
  | insertBatch db rows =>
      refine ⟨front, h.table, fun hidle => (by cases hidle), fun p hp => ?_⟩
      obtain rfl := Option.some.inj hp
      exact ⟨rows, hsucc, ⟨rfl, hnone db⟩, fun c _ => hnone c⟩

theorem Settled.advance (h : Settled disk d₀ t front) (hsql : sql.Lawful disk)
    (hhealthy : sql.Healthy disk) {p : Sqlite.Progress φ Nat} (hp : t.call = some p) :
    ∃ front', Settled disk d₀
      { t with call := (sql.advance t.sqlite p).1, sqlite := (sql.advance t.sqlite p).2 }
        front' := by
  obtain ⟨given, hevents, hwithin, hothers⟩ := h.busy p hp
  obtain ⟨_, _, _, hkept, _⟩ := hsql.kept_advance p t.sqlite
  have hothers' : ∀ c, c ≠ p.db → (disk (sql.advance t.sqlite p).2).pending c = none :=
    fun c hc => (hkept.others c hc).trans (hothers c hc)
  rcases hhealthy.advance hsql hwithin with ⟨p', hp', hdb, hwithin', htable⟩ |
    ⟨hend, hpending, htable⟩
  · -- the tables stay as they are before the commit
    refine ⟨front, fun file => ?_, fun hidle => ?_, fun q hq => ?_⟩
    · show (disk (sql.advance t.sqlite p).2).table file = _
      rw [htable]
      exact h.table file
    · exact absurd (hidle.symm.trans hp') fun heq => by cases heq
    · obtain rfl := Option.some.inj (hp'.symm.trans hq)
      exact ⟨given, hdb ▸ hevents, hwithin', hdb ▸ hothers'⟩
  · refine ⟨front ++ [.insertBatch p.db given], fun file => ?_, fun _ => ⟨hevents, fun c => ?_⟩,
      fun q hq => absurd (hend.symm.trans hq) fun heq => by cases heq⟩
    · show (disk (sql.advance t.sqlite p).2).table file = _
      rw [htable, writtenFile_concat, List.map_append, ← List.append_assoc, ← h.table file]
      show _ = _ ++ (if p.db.path = file then given else []).map DataRow.bound
      by_cases hfile : p.db.path = file
      · rw [if_pos hfile, ← hfile, Function.update_self]
      · rw [if_neg hfile, Function.update_of_ne fun heq => hfile heq.symm, List.map_nil,
          List.append_nil]
    · by_cases hc : c = p.db
      · exact hc ▸ hpending
      · exact hothers' c hc

theorem settled_run {s : σ} (hsql : sql.Lawful disk) (hhealthy : sql.Healthy disk)
    (hfresh : ∀ c, (disk s).pending c = none) (h : Run sql formatValue (start path s) t) :
    ∃ front, Settled disk (disk s) t front := by
  induction h with
  | refl => exact ⟨[], settled_start hfresh⟩
  | tail hrun hstep ih =>
      obtain ⟨front, hsettled⟩ := ih
      rcases (inv_run hrun).step_cases hstep with hapart | ⟨e, hcall, he, rfl⟩ | ⟨p, hp, rfl⟩
      · exact ⟨front, hsettled.apart hapart⟩
      · exact hsettled.execute hcall he
      · exact hsettled.advance hsql hhealthy hp

end Disk

/-! ## The names of the devices -/

section Drain

variable {δ γ ν : Type}

end Drain

section Main

variable [DecidableEq φ] {disk : σ → Disk φ Nat} {s : σ}

end Main

/-! ## A measurement on its way -/

/-- The first frame of the node. -/
def measurement : Frame × Int := (⟨EDGE_TYPE_DHT11, [0, 231, 1, 245]⟩, 1000)

/-- The frame is taken, and `BEGIN` of its batch executed. -/
def measured : TelemetryStore (Disk Unit Nat) Unit :=
  let t := start () (⟨fun _ => [], fun _ => none⟩ : Disk Unit Nat)
  let t := { t.telemetry true measurement with tasks := [] }.handleTelemetry (fun _ => []) measurement
  let t := { t with pipeline := t.pipeline.shutdown }
  let t := { t with pipeline := t.pipeline.writerStep.getD t.pipeline }
  let t := { t with pipeline := t.pipeline.writerStep.getD t.pipeline }
  let t := t.execute (.insertBatch ⟨0, ()⟩ (stampedRows measurement))
  let (call, disk) := Sqlite.memory.advance t.sqlite (.begin ⟨0, ()⟩ (stampedRows measurement))
  { t with call := call, sqlite := disk }

end TelemetryStore

end EdgeGateway
