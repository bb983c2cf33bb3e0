import EdgeGateway.Basic.Bytes
import EdgeGateway.Basic.Steps
import EdgeGateway.Concurrent.ThreadSafeQueue
import Mathlib.Logic.Relation
import Mathlib.Tactic.SplitIfs

set_option autoImplicit false

/-! # The telemetry pipeline

Producers queue batches of rows and database swaps; one writer thread merges what is already queued
into transactions. The writer's loops are cut at its two calls of the queue: between them it shares
nothing with another thread. Databases, callbacks and values are parameters; `insertBatch` and the
callbacks are recorded in the order in which the writer makes them.
-/

namespace EdgeGateway

/-! ## Data -/

/-- `Reading`, as the decoder makes it. -/
structure TelemetryPipeline.Reading (ν : Type) where
  device : List UInt8
  value : ν

structure DataRow (ν : Type) where
  deviceId : List UInt8
  value : ν
  ts : Int

variable {δ γ ν : Type}

/-- `TelemetryPipeline::Job`. -/
inductive PipelineJob (δ γ ν : Type)
  | batch (rows : List (DataRow ν))
  | swapDb (db : δ) (onApplied : Option γ)

/-- What the writer does to the outside. -/
inductive WriterEvent (δ γ ν : Type)
  | insertBatch (db : δ) (rows : List (DataRow ν))
  | applied (callback : γ)

/-- Where the writer is: before `pop`, before `try_pop`, or at its end. -/
inductive WriterState
  | popping
  | merging
  | exited
  deriving DecidableEq

structure Writer (δ γ ν : Type) where
  db : δ
  rows : List (DataRow ν)
  state : WriterState
  events : List (WriterEvent δ γ ν)

/-- `accepted` are the jobs that were queued, in order. -/
structure TelemetryPipeline (δ γ ν : Type) where
  queue : ThreadSafeQueue (PipelineJob δ γ ν)
  writer : Writer δ γ ν
  accepted : List (PipelineJob δ γ ν)

def kMaxRowsPerTxn : Nat := 256

def kQueueCapacity : Nat := 1024

/-! ## Producers -/

namespace TelemetryPipeline

def init (db : δ) : TelemetryPipeline δ γ ν where
  queue := { capacity := kQueueCapacity }
  writer := ⟨db, [], .popping, []⟩
  accepted := []

/-- The pipeline after a push. -/
def pushed (s : TelemetryPipeline δ γ ν) (job : PipelineJob δ γ ν)
    (r : Bool × ThreadSafeQueue (PipelineJob δ γ ν)) : Bool × TelemetryPipeline δ γ ν :=
  (r.1, { s with queue := r.2, accepted := if r.1 then s.accepted ++ [job] else s.accepted })

def submit (readings : List (Reading ν)) (ts : Int) (s : TelemetryPipeline δ γ ν) :
    Bool × TelemetryPipeline δ γ ν :=
  if readings = [] then (true, s)
  else
    let job : PipelineJob δ γ ν := .batch (readings.map fun r => ⟨r.device, r.value, ts⟩)
    s.pushed job (s.queue.tryPush job)

def swapDatabase (db : δ) (onApplied : Option γ) (s : TelemetryPipeline δ γ ν) :
    Bool × TelemetryPipeline δ γ ν :=
  s.pushed (.swapDb db onApplied) (s.queue.pushFor (.swapDb db onApplied))

/-- The first line of the destructor. -/
def shutdown (s : TelemetryPipeline δ γ ν) : TelemetryPipeline δ γ ν :=
  { s with queue := s.queue.close }

end TelemetryPipeline

/-! ## The writer -/

namespace Writer

/-- The rows so far go to the database. -/
def flush (w : Writer δ γ ν) : Writer δ γ ν :=
  if w.rows = [] then w
  else { w with events := w.events ++ [.insertBatch w.db w.rows], rows := [] }

/-- A job that was taken, up to the next call of the queue. A swap and a full transaction leave the
inner loop; the rows that are left are flushed behind it. -/
def handle (w : Writer δ γ ν) : PipelineJob δ γ ν → Writer δ γ ν
  | .swapDb db onApplied =>
      let w := w.flush
      let w := { w with db := db, events := w.events ++ onApplied.toList.map WriterEvent.applied }
      { w.flush with state := .popping }
  | .batch rows =>
      let w := { w with rows := w.rows ++ rows }
      if w.rows.length ≥ kMaxRowsPerTxn then { w.flush with state := .popping }
      else { w with state := .merging }

end Writer

@[simp] theorem flush_state (w : Writer δ γ ν) : w.flush.state = w.state := by
  unfold Writer.flush
  split_ifs <;> rfl

theorem handle_not_exited (w : Writer δ γ ν) (job : PipelineJob δ γ ν) :
    (w.handle job).state ≠ .exited := by
  unfold Writer.handle
  cases job with
  | swapDb => exact fun h => by cases h
  | batch rows =>
      dsimp only
      split_ifs
      · exact fun h => by cases h
      · exact fun h => by cases h

namespace TelemetryPipeline

/-- One call of the queue and what follows it; `none` while the writer waits, and when it is gone. -/
def writerStep (s : TelemetryPipeline δ γ ν) : Option (TelemetryPipeline δ γ ν) :=
  match s.writer.state with
  | .popping =>
      match s.queue.pop with
      | some (some job, queue) => some { s with queue := queue, writer := s.writer.handle job }
      | some (none, queue) =>
          some { s with queue := queue, writer := { s.writer with state := .exited } }
      | none => none
  | .merging =>
      match s.queue.tryPop with
      | (some job, queue) => some { s with queue := queue, writer := s.writer.handle job }
      | (none, queue) =>
          some { s with queue := queue, writer := { s.writer.flush with state := .popping } }
  | .exited => none

/-! ## Runs -/

/-- Any thread takes the next step. -/
inductive Step : TelemetryPipeline δ γ ν → TelemetryPipeline δ γ ν → Prop
  | submit (s : TelemetryPipeline δ γ ν) (readings : List (Reading ν)) (ts : Int) :
      Step s (s.submit readings ts).2
  | swapDatabase (s : TelemetryPipeline δ γ ν) (db : δ) (onApplied : Option γ) :
      Step s (s.swapDatabase db onApplied).2
  | shutdown (s : TelemetryPipeline δ γ ν) : Step s s.shutdown
  | writer (s s' : TelemetryPipeline δ γ ν) (h : s.writerStep = some s') : Step s s'

abbrev Run : TelemetryPipeline δ γ ν → TelemetryPipeline δ γ ν → Prop :=
  Relation.ReflTransGen Step

/-- The writer has dealt with all that was queued. -/
def Drained (s : TelemetryPipeline δ γ ν) : Prop :=
  s.queue.queue = [] ∧ s.writer.state ≠ .merging

end TelemetryPipeline

/-! ## What the writer is for -/

/-- `Batched db jobs events db'`: beginning with `db`, the events deal with the jobs in order and end
with `db'`. Every transaction consists of whole batches that were queued for its database, and is
below the limit without the last of them; every swap has its callback called once, in its place. -/
inductive Batched : δ → List (PipelineJob δ γ ν) → List (WriterEvent δ γ ν) → δ → Prop
  | nil (db : δ) : Batched db [] [] db
  | insertBatch {db db' : δ} {jobs : List (PipelineJob δ γ ν)} {events : List (WriterEvent δ γ ν)}
      (h : Batched db jobs events db') (batches : List (List (DataRow ν))) (hne : batches ≠ [])
      (hlimit : batches.dropLast.flatten.length < kMaxRowsPerTxn) :
      Batched db (jobs ++ batches.map PipelineJob.batch) (events ++ [.insertBatch db' batches.flatten]) db'
  | swapDb {db db' : δ} {jobs : List (PipelineJob δ γ ν)} {events : List (WriterEvent δ γ ν)}
      (h : Batched db jobs events db') (next : δ) (onApplied : Option γ) :
      Batched db (jobs ++ [.swapDb next onApplied]) (events ++ onApplied.toList.map WriterEvent.applied) next

/-- The rows of the batches that are queued while `target` is the latest swap target. -/
def targetedAt [DecidableEq δ] (target : δ) : δ → List (PipelineJob δ γ ν) → List (DataRow ν)
  | _, [] => []
  | db, .batch rows :: jobs => (if db = target then rows else []) ++ targetedAt target db jobs
  | _, .swapDb db _ :: jobs => targetedAt target db jobs

/-- The rows handed to `insertBatch` on `target`. -/
def writtenTo [DecidableEq δ] (target : δ) : List (WriterEvent δ γ ν) → List (DataRow ν)
  | [] => []
  | .insertBatch db rows :: events =>
      (if db = target then rows else []) ++ writtenTo target events
  | .applied _ :: events => writtenTo target events

/-- The callbacks the jobs ask for. -/
def PipelineJob.callbacks : PipelineJob δ γ ν → List γ
  | .batch _ => []
  | .swapDb _ onApplied => onApplied.toList

def WriterEvent.callbacks : WriterEvent δ γ ν → List γ
  | .insertBatch _ _ => []
  | .applied callback => [callback]

theorem targetedAt_batches [DecidableEq δ] (target db : δ) (batches : List (List (DataRow ν)))
    (more : List (PipelineJob δ γ ν)) :
    targetedAt target db (batches.map PipelineJob.batch ++ more) =
      (if db = target then batches.flatten else []) ++ targetedAt target db more := by
  induction batches with
  | nil => simp
  | cons rows rest ih =>
      simp only [List.map_cons, List.cons_append, targetedAt, ih, List.flatten_cons]
      split_ifs
      · rw [List.append_assoc]
      · rfl

theorem writtenTo_append [DecidableEq δ] (target : δ) (events more : List (WriterEvent δ γ ν)) :
    writtenTo target (events ++ more) = writtenTo target events ++ writtenTo target more := by
  induction events with
  | nil => rfl
  | cons e events ih =>
      cases e with
      | insertBatch db rows => simp only [List.cons_append, writtenTo, ih, List.append_assoc]
      | applied callback => exact ih

theorem writtenTo_applied [DecidableEq δ] (target : δ) (callbacks : List γ) :
    writtenTo (ν := ν) target (callbacks.map WriterEvent.applied) = [] := by
  induction callbacks with
  | nil => rfl
  | cons callback callbacks ih => exact ih

namespace Batched

variable {db db' : δ} {jobs jobs' : List (PipelineJob δ γ ν)}
  {events : List (WriterEvent δ γ ν)}

theorem targetedAt_append [DecidableEq δ] (h : Batched db jobs events db') (target : δ)
    (more : List (PipelineJob δ γ ν)) :
    targetedAt target db (jobs ++ more) =
      targetedAt target db jobs ++ targetedAt target db' more := by
  induction h generalizing more with
  | nil => rfl
  | @insertBatch last jobs _ h batches hne hlimit ih =>
      have hbatches := targetedAt_batches (γ := γ) target last batches []
      rw [List.append_nil] at hbatches
      calc targetedAt target db (jobs ++ batches.map .batch ++ more)
          = targetedAt target db jobs ++ targetedAt target last (batches.map .batch ++ more) := by
            rw [List.append_assoc, ih]
        _ = targetedAt target db jobs ++ targetedAt target last (batches.map .batch) ++
              targetedAt target last more := by
            rw [targetedAt_batches, hbatches, List.append_assoc]
            simp [targetedAt]
        _ = targetedAt target db (jobs ++ batches.map .batch) ++ targetedAt target last more := by
            rw [ih]
  | swapDb h next onApplied ih =>
      rw [List.append_assoc, ih, ih, List.append_assoc]
      rfl

/-- **Every row goes to the database it was queued for**, once and in order. -/
theorem writtenTo_eq [DecidableEq δ] (h : Batched db jobs events db') (target : δ) :
    writtenTo target events = targetedAt target db jobs := by
  induction h with
  | nil => rfl
  | @insertBatch last jobs _ h batches hne hlimit ih =>
      have hbatches := targetedAt_batches (γ := γ) target last batches []
      rw [List.append_nil] at hbatches
      calc writtenTo target (_ ++ [.insertBatch last batches.flatten])
          = targetedAt target db jobs ++ writtenTo target [.insertBatch last batches.flatten] := by
            rw [writtenTo_append, ih]
        _ = targetedAt target db jobs ++ targetedAt target last (batches.map .batch) := by
            rw [hbatches]
            rfl
        _ = targetedAt target db (jobs ++ batches.map .batch) :=
            (h.targetedAt_append target _).symm
  | @swapDb last jobs events h next onApplied ih =>
      calc writtenTo target (events ++ onApplied.toList.map WriterEvent.applied)
          = targetedAt target db jobs := by
            rw [writtenTo_append, writtenTo_applied, ih, List.append_nil]
        _ = targetedAt target db jobs ++ targetedAt target last [.swapDb next onApplied] :=
            (List.append_nil _).symm
        _ = targetedAt target db (jobs ++ [.swapDb next onApplied]) :=
            (h.targetedAt_append target _).symm

/-- **Every callback is called once**, in order. -/
theorem callbacks_eq (h : Batched db jobs events db') :
    events.flatMap WriterEvent.callbacks = jobs.flatMap PipelineJob.callbacks := by
  induction h with
  | nil => rfl
  | insertBatch h batches hne hlimit ih =>
      have hbatches : (batches.map (PipelineJob.batch (δ := δ) (γ := γ))).flatMap
          PipelineJob.callbacks = [] := by
        rw [List.flatMap_map]
        exact List.flatMap_eq_nil_iff.mpr fun _ _ => rfl
      rw [List.flatMap_append, List.flatMap_append, ih, hbatches]
      rfl
  | swapDb h next onApplied ih =>
      rw [List.flatMap_append, List.flatMap_append, ih, List.flatMap_map]
      simp [WriterEvent.callbacks, PipelineJob.callbacks]

/-- **A swap divides the events**: what was queued before it has been dealt with when its callback is
called, and nothing queued behind it. -/
theorem split (h : Batched db jobs events db') :
    ∀ before next onApplied after, jobs = before ++ .swapDb next onApplied :: after →
      ∃ earlier later last, events =
          earlier ++ (onApplied.toList.map WriterEvent.applied ++ later) ∧
        Batched db before earlier last ∧ Batched next after later db' := by
  induction h with
  | nil =>
      intro before next onApplied after hjobs
      cases before <;> cases hjobs
  | @insertBatch last jobs events h batches hne hlimit ih =>
      intro before next onApplied after hjobs
      rcases append_eq_cut hjobs with ⟨rest, rfl, rfl⟩ | ⟨new, rfl, hnew⟩
      · obtain ⟨earlier, later, mid, rfl, hearlier, hlater⟩ := ih _ _ _ _ rfl
        refine ⟨earlier, later ++ [.insertBatch last batches.flatten], mid, ?_, hearlier,
          hlater.insertBatch batches hne hlimit⟩
        rw [List.append_assoc, List.append_assoc]
      · -- a transaction holds no swap
        have hmem : PipelineJob.swapDb next onApplied ∈ batches.map PipelineJob.batch := by
          rw [hnew]
          exact List.mem_append_right _ List.mem_cons_self
        obtain ⟨rows, -, hrows⟩ := List.mem_map.mp hmem
        cases hrows
  | @swapDb last jobs events h current callback ih =>
      intro before next onApplied after hjobs
      rcases append_eq_cut hjobs with ⟨rest, rfl, rfl⟩ | ⟨new, rfl, hnew⟩
      · obtain ⟨earlier, later, mid, rfl, hearlier, hlater⟩ := ih _ _ _ _ rfl
        refine ⟨earlier, later ++ callback.toList.map WriterEvent.applied, mid, ?_, hearlier,
          hlater.swapDb current callback⟩
        rw [List.append_assoc, List.append_assoc]
      · cases new with
        | nil =>
            -- this is the swap that came last
            obtain ⟨hswap, rfl⟩ := List.cons.inj hnew
            obtain ⟨rfl, rfl⟩ := PipelineJob.swapDb.inj hswap
            rw [List.append_nil]
            exact ⟨events, [], last, by rw [List.append_nil], h, .nil current⟩
        | cons job new =>
            obtain ⟨-, hrest⟩ := List.cons.inj hnew
            cases new <;> cases hrest

end Batched

/-! ## Invariant -/

/-- The writer has dealt with `done`; the rows of `merged` are not yet in a transaction. -/
structure WriterInv (db : δ) (done : List (PipelineJob δ γ ν)) (merged : List (List (DataRow ν)))
    (w : Writer δ γ ν) : Prop where
  batched : Batched db done w.events w.db
  rows : w.rows = merged.flatten
  size : merged.flatten.length < kMaxRowsPerTxn
  nonempty : ∀ rows ∈ merged, rows ≠ []
  merging : w.state ≠ .merging → merged = []

/-- No batch is empty. -/
def PipelineJob.Nonempty : PipelineJob δ γ ν → Prop
  | .batch rows => rows ≠ []
  | .swapDb _ _ => True

section Writer

variable {db : δ} {done : List (PipelineJob δ γ ν)} {merged : List (List (DataRow ν))}
  {w : Writer δ γ ν}

theorem flush_batched (hbatched : Batched db done w.events w.db) (hrows : w.rows = merged.flatten)
    (hnonempty : ∀ rows ∈ merged, rows ≠ [])
    (hlimit : merged.dropLast.flatten.length < kMaxRowsPerTxn) :
    w.flush.rows = [] ∧ w.flush.db = w.db ∧
      Batched db (done ++ merged.map .batch) w.flush.events w.db := by
  unfold Writer.flush
  split_ifs with hempty
  · -- without rows there is no transaction
    have hmerged : merged = [] := by
      cases merged with
      | nil => rfl
      | cons rows rest =>
          rw [hrows, List.flatten_cons, List.append_eq_nil_iff] at hempty
          exact absurd hempty.1 (hnonempty rows List.mem_cons_self)
    rw [hmerged, List.map_nil, List.append_nil]
    exact ⟨hempty, rfl, hbatched⟩
  · have hne : merged ≠ [] := by
      rintro rfl
      exact hempty hrows
    refine ⟨rfl, rfl, ?_⟩
    show Batched db _ (w.events ++ [.insertBatch w.db w.rows]) w.db
    rw [hrows]
    exact hbatched.insertBatch merged hne hlimit

theorem dropLast_size (h : merged.flatten.length < kMaxRowsPerTxn) :
    merged.dropLast.flatten.length < kMaxRowsPerTxn := by
  rcases merged.eq_nil_or_concat with rfl | ⟨most, last, rfl⟩
  · exact h
  · rw [List.concat_eq_append] at h ⊢
    rw [List.flatten_append, List.length_append] at h
    rw [List.dropLast_concat]
    omega

/-- Between two transactions. -/
theorem writerInv_idle (hbatched : Batched db done w.events w.db) (hrows : w.rows = []) :
    WriterInv db done [] w where
  batched := hbatched
  rows := hrows
  size := Nat.succ_pos 255
  nonempty := fun _ h => by cases h
  merging := fun _ => rfl

/-- A job the writer takes. -/
theorem handle_inv (h : WriterInv db done merged w) {job : PipelineJob δ γ ν}
    (hjob : job.Nonempty) : ∃ done' merged',
      done' ++ merged'.map .batch = done ++ merged.map .batch ++ [job] ∧
        WriterInv db done' merged' (w.handle job) := by
  cases job with
  | swapDb next onApplied =>
      obtain ⟨hrows, -, hbatched⟩ :=
        flush_batched h.batched h.rows h.nonempty (dropLast_size h.size)
      refine ⟨done ++ merged.map .batch ++ [.swapDb next onApplied], [], List.append_nil _, ?_⟩
      -- the flush behind the inner loop finds no rows
      have hidle : Writer.flush { w.flush with
            db := next
            events := w.flush.events ++ onApplied.toList.map WriterEvent.applied } =
          { w.flush with
            db := next
            events := w.flush.events ++ onApplied.toList.map WriterEvent.applied } := by
        unfold Writer.flush at hrows ⊢
        exact if_pos hrows
      unfold Writer.handle
      dsimp only
      rw [hidle]
      exact writerInv_idle (hbatched.swapDb next onApplied) hrows
  | batch rows =>
      have hrows : w.rows ++ rows = (merged ++ [rows]).flatten := by
        rw [h.rows, List.flatten_append, List.flatten_singleton]
      have hnonempty : ∀ r ∈ merged ++ [rows], r ≠ [] := by
        rw [List.forall_mem_append, List.forall_mem_singleton]
        exact ⟨h.nonempty, hjob⟩
      unfold Writer.handle
      dsimp only
      split_ifs with hfull
      · -- the transaction is full with this batch
        have hlimit : (merged ++ [rows]).dropLast.flatten.length < kMaxRowsPerTxn := by
          rw [List.dropLast_concat]
          exact h.size
        obtain ⟨hempty, hdb, hbatched⟩ := flush_batched (w := { w with rows := w.rows ++ rows })
          h.batched hrows hnonempty hlimit
        refine ⟨done ++ (merged ++ [rows]).map .batch, [], ?_, ?_⟩
        · rw [List.map_nil, List.append_nil, List.map_append, List.append_assoc]
          rfl
        · exact writerInv_idle (hdb.symm ▸ hbatched) hempty
      · refine ⟨done, merged ++ [rows], ?_, h.batched, hrows, ?_, hnonempty, ?_⟩
        · rw [List.map_append, List.append_assoc]
          rfl
        · rw [← hrows]
          exact Nat.not_le.mp hfull
        · exact fun hstate => absurd rfl hstate

end Writer

namespace TelemetryPipeline

structure Inv (db : δ) (s : TelemetryPipeline δ γ ν) : Prop where
  writer : ∃ done merged, s.accepted = done ++ merged.map .batch ++ s.queue.queue ∧
    WriterInv db done merged s.writer
  nonempty : ∀ job ∈ s.accepted, job.Nonempty
  exited : s.writer.state = .exited → s.queue.shutdown = true ∧ s.queue.queue = []

theorem inv_init (db : δ) : Inv db (init (γ := γ) (ν := ν) db) where
  writer := ⟨[], [], rfl, writerInv_idle (.nil db) rfl⟩
  nonempty := fun _ h => by cases h
  exited := fun h => by cases h

variable {db : δ} {s s' : TelemetryPipeline δ γ ν}

theorem inv_push {job : PipelineJob δ γ ν} (hs : Inv db s) (hjob : job.Nonempty) :
    Inv db (s.pushed job (s.queue.tryPush job)).2 := by
  rcases ThreadSafeQueue.tryPush_cases job s.queue with hpush | ⟨hopen, hpush⟩
  · rw [hpush]
    exact hs
  · rw [hpush]
    obtain ⟨done, merged, haccepted, hwriter⟩ := hs.writer
    refine ⟨⟨done, merged, ?_, hwriter⟩, ?_, fun hexited => ?_⟩
    · show s.accepted ++ [job] = done ++ merged.map .batch ++ (s.queue.queue ++ [job])
      rw [haccepted, List.append_assoc]
    · show ∀ j ∈ s.accepted ++ [job], j.Nonempty
      rw [List.forall_mem_append, List.forall_mem_singleton]
      exact ⟨hs.nonempty, hjob⟩
    · -- the writer leaves a closed queue only
      rw [(hs.exited hexited).1] at hopen
      cases hopen

/-- The writer takes the job in front. -/
theorem inv_handle (hs : Inv db s) {job : PipelineJob δ γ ν} {rest : List (PipelineJob δ γ ν)}
    (hqueue : s.queue.queue = job :: rest) :
    Inv db { s with
      queue := { s.queue with queue := rest }
      writer := s.writer.handle job } := by
  obtain ⟨done, merged, haccepted, hwriter⟩ := hs.writer
  have hjob : job.Nonempty := by
    refine hs.nonempty job ?_
    rw [haccepted, hqueue]
    exact List.mem_append_right _ List.mem_cons_self
  obtain ⟨done', merged', hsame, hwriter'⟩ := handle_inv hwriter hjob
  refine ⟨⟨done', merged', ?_, hwriter'⟩, hs.nonempty, fun hexited => ?_⟩
  · show s.accepted = done' ++ merged'.map .batch ++ rest
    rw [haccepted, hqueue, hsame, List.append_assoc _ [job]]
    rfl
  · exact absurd hexited (handle_not_exited s.writer job)

theorem inv_writer (hs : Inv db s) (h : s.writerStep = some s') : Inv db s' := by
  obtain ⟨done, merged, haccepted, hwriter⟩ := hs.writer
  unfold writerStep at h
  cases hstate : s.writer.state with
  | popping =>
      rw [hstate] at h
      unfold ThreadSafeQueue.pop at h
      cases hqueue : s.queue.queue with
      | cons job rest =>
          rw [hqueue] at h
          obtain rfl := Option.some.inj h
          exact inv_handle hs hqueue
      | nil =>
          rw [hqueue] at h
          dsimp only at h
          split_ifs at h with hshut
          obtain rfl := Option.some.inj h
          refine ⟨⟨done, merged, haccepted, ?_⟩, hs.nonempty, fun _ => ⟨hshut, hqueue⟩⟩
          have hidle := hwriter.merging (by rw [hstate]; decide)
          exact ⟨hwriter.batched, hwriter.rows, hwriter.size, hwriter.nonempty, fun _ => hidle⟩
  | merging =>
      rw [hstate] at h
      unfold ThreadSafeQueue.tryPop at h
      cases hqueue : s.queue.queue with
      | cons job rest =>
          rw [hqueue] at h
          obtain rfl := Option.some.inj h
          exact inv_handle hs hqueue
      | nil =>
          -- nothing more is queued: the rows so far are written
          rw [hqueue] at h
          obtain rfl := Option.some.inj h
          obtain ⟨hrows, hdb, hbatched⟩ := flush_batched hwriter.batched hwriter.rows
            hwriter.nonempty (dropLast_size hwriter.size)
          refine ⟨⟨done ++ merged.map .batch, [], ?_, ?_⟩, hs.nonempty, fun h => by cases h⟩
          · rw [List.map_nil, List.append_nil]
            exact haccepted
          · exact writerInv_idle (hdb.symm ▸ hbatched) hrows
  | exited =>
      rw [hstate] at h
      cases h

theorem inv_step (h : Step s s') (hs : Inv db s) : Inv db s' := by
  cases h with
  | submit readings ts =>
      unfold submit
      split_ifs with hempty
      · exact hs
      · exact inv_push hs fun h => hempty (List.map_eq_nil_iff.mp h)
  | swapDatabase next onApplied =>
      unfold swapDatabase
      rw [ThreadSafeQueue.pushFor_eq_tryPush]
      exact inv_push hs trivial
  | shutdown => exact ⟨hs.writer, hs.nonempty, fun h => ⟨rfl, (hs.exited h).2⟩⟩
  | writer _ h => exact inv_writer hs h

/-- **The invariant holds in every reachable state.** -/
theorem inv_run (h : Run (init db) s) : Inv db s := by
  induction h with
  | refl => exact inv_init db
  | tail _ hstep ih => exact inv_step hstep ih

/-! ## The writer's end -/

/-- A writer that is gone has dealt with everything. -/
theorem drained_of_exited (h : Run (init db) s) (hexited : s.writer.state = .exited) :
    s.Drained := by
  refine ⟨((inv_run h).exited hexited).2, ?_⟩
  rw [hexited]
  decide

/-- One more call of the queue takes a job, or ends the round. -/
theorem writerStep_front {job : PipelineJob δ γ ν} {rest : List (PipelineJob δ γ ν)}
    (hqueue : s.queue.queue = job :: rest) (hstate : s.writer.state ≠ .exited) :
    s.writerStep = some { s with
      queue := { s.queue with queue := rest }
      writer := s.writer.handle job } := by
  unfold writerStep ThreadSafeQueue.pop ThreadSafeQueue.tryPop
  cases hcases : s.writer.state with
  | popping => simp only [hqueue]
  | merging => simp only [hqueue]
  | exited => exact absurd hcases hstate

/-- **After the shutdown the writer reaches its end**: the destructor returns. -/
theorem writer_exits (jobs : List (PipelineJob δ γ ν)) : ∀ s : TelemetryPipeline δ γ ν,
    s.queue.queue = jobs → s.queue.shutdown = true →
      ∃ s', Run s s' ∧ s'.writer.state = .exited ∧ s'.accepted = s.accepted := by
  induction jobs with
  | nil =>
      intro s hqueue hshut
      have hpopping : ∀ u : TelemetryPipeline δ γ ν, u.queue.queue = [] →
          u.queue.shutdown = true → u.writer.state = .popping →
          Step u { u with writer := { u.writer with state := .exited } } := by
        intro u hqueue hshut hstate
        refine .writer _ _ ?_
        unfold writerStep ThreadSafeQueue.pop
        simp [hstate, hqueue, hshut]
      cases hstate : s.writer.state with
      | popping => exact ⟨_, .single (hpopping s hqueue hshut hstate), rfl, rfl⟩
      | merging =>
          have hflush : Step s { s with writer := { s.writer.flush with state := .popping } } := by
            refine .writer _ _ ?_
            unfold writerStep ThreadSafeQueue.tryPop
            simp [hstate, hqueue]
          exact ⟨_, (Relation.ReflTransGen.single hflush).tail (hpopping _ hqueue hshut rfl), rfl,
            rfl⟩
      | exited => exact ⟨s, .refl, hstate, rfl⟩
  | cons job rest ih =>
      intro s hqueue hshut
      by_cases hexited : s.writer.state = .exited
      · exact ⟨s, .refl, hexited, rfl⟩
      · have hstep := Step.writer s _ (writerStep_front hqueue hexited)
        obtain ⟨s', hrun, hend, haccepted⟩ := ih { s with
          queue := { s.queue with queue := rest }
          writer := s.writer.handle job } rfl hshut
        exact ⟨s', .head hstep hrun, hend, haccepted⟩

/-- **Lossless batching and swap boundaries.** Once the writer has dealt with all that was queued,
every database was handed the rows queued for it, once and in order; the transactions are whole
batches below the limit; every swap's callback was called once, behind all rows queued before the
swap and before any queued behind it. -/
theorem writer_lossless [DecidableEq δ] (db : δ) {s : TelemetryPipeline δ γ ν}
    (hrun : Run (init db) s) (hdrained : s.Drained) :
    (∀ target, writtenTo target s.writer.events = targetedAt target db s.accepted) ∧
      (∃ last, Batched db s.accepted s.writer.events last) ∧
      s.writer.events.flatMap WriterEvent.callbacks =
        s.accepted.flatMap PipelineJob.callbacks ∧
      ∀ before next onApplied after, s.accepted = before ++ .swapDb next onApplied :: after →
        ∃ earlier later last last', s.writer.events =
            earlier ++ (onApplied.toList.map WriterEvent.applied ++ later) ∧
          Batched db before earlier last ∧ Batched next after later last' := by
  obtain ⟨done, merged, haccepted, hwriter⟩ := (inv_run hrun).writer
  have hbatched : Batched db s.accepted s.writer.events s.writer.db := by
    rw [haccepted, hdrained.1, hwriter.merging hdrained.2, List.map_nil, List.append_nil,
      List.append_nil]
    exact hwriter.batched
  refine ⟨hbatched.writtenTo_eq, ⟨_, hbatched⟩, hbatched.callbacks_eq, ?_⟩
  intro before next onApplied after hsplit
  obtain ⟨earlier, later, last, hevents, hearlier, hlater⟩ :=
    hbatched.split before next onApplied after hsplit
  exact ⟨earlier, later, last, _, hevents, hearlier, hlater⟩

/-- A row, a swap and another row, written one by one. -/
def swapped : TelemetryPipeline Nat Nat Int :=
  let s := ((init 0).submit [⟨bytes "temperature", 25⟩] 1000).2
  let s := (s.swapDatabase 1 (some 7)).2
  let s := (s.submit [⟨bytes "humidity", 60⟩] 1001).2.shutdown
  { s with
    queue := { s.queue with queue := [] }
    writer := ⟨1, [], .exited, [.insertBatch 0 [⟨bytes "temperature", 25, 1000⟩], .applied 7,
      .insertBatch 1 [⟨bytes "humidity", 60, 1001⟩]]⟩ }

theorem writer_lossless_swapped : Run (init 0) swapped ∧
    writtenTo 1 swapped.writer.events = targetedAt 1 0 swapped.accepted := by
  have hrun : Run (init 0) swapped := by
    refine .head (.submit _ [⟨bytes "temperature", 25⟩] 1000) ?_
    refine .head (.swapDatabase _ 1 (some 7)) ?_
    refine .head (.submit _ [⟨bytes "humidity", 60⟩] 1001) ?_
    refine .head (.shutdown _) ?_
    refine .head (.writer _ _ rfl) ?_
    refine .head (.writer _ _ rfl) ?_
    refine .head (.writer _ _ rfl) ?_
    refine .head (.writer _ _ rfl) ?_
    exact .single (.writer _ _ rfl)
  exact ⟨hrun, (writer_lossless 0 hrun (drained_of_exited hrun rfl)).1 1⟩

end TelemetryPipeline

end EdgeGateway
