import EdgeGateway.Pipeline.TelemetryPipeline
import Mathlib.Data.List.Sort
import Mathlib.Logic.Function.Basic

set_option autoImplicit false

/-! # The telemetry tables

`Database` over SQLite. SQLite itself is a parameter: what its calls do to the rows on disk and to
the transaction of a connection is stated as laws, and each call may fail. Log lines are left out.
-/

namespace EdgeGateway

open scoped List

variable {σ φ ν : Type}

/-! ## SQLite -/

/-- A connection to a file. Connections are numbered in the order in which they are opened. -/
structure Connected (φ : Type) where
  id : Nat
  path : φ
  deriving DecidableEq

/-- The rows of `device_data` in each file, in the order of their ids, and of each connection the
rows of its open transaction. -/
structure Disk (φ ν : Type) where
  table : φ → List (DataRow ν)
  pending : Connected φ → Option (List (DataRow ν))

/-- The texts that are executed without a result. -/
inductive Sql
  | begin
  | commit
  | rollback
  deriving DecidableEq

/-- `exec` is `sqlite3_exec`, `true` for `SQLITE_OK`; `insert` is `sqlite3_step` of the `INSERT`
with its bindings, `true` for `SQLITE_DONE`; `select` are the rows that `sqlite3_step` returns for the
query before it returns something else. -/
structure Sqlite (σ φ ν : Type) where
  exec : Connected φ → Sql → σ → Bool × σ
  insert : Connected φ → DataRow ν → σ → Bool × σ
  select : Connected φ → List UInt8 → Int → σ → List (DataRow ν)

/-- A bound text ends before its first NUL. -/
def bindText (text : List UInt8) : List UInt8 := text.takeWhile (· ≠ 0)

/-- The bindings of the `INSERT`. -/
def DataRow.bound (r : DataRow ν) : DataRow ν := { r with deviceId := bindText r.deviceId }

namespace Disk

variable [DecidableEq φ]

/-- Rows become permanent, and the transaction of the connection goes on as given. -/
def change (db : Connected φ) (rows : List (DataRow ν)) (opened : Option (List (DataRow ν)))
    (d : Disk φ ν) : Disk φ ν where
  table := Function.update d.table db.path (d.table db.path ++ rows)
  pending := Function.update d.pending db opened

/-- The rows of the open transaction. -/
def left (d : Disk φ ν) (db : Connected φ) : List (DataRow ν) := (d.pending db).getD []

variable (d : Disk φ ν) (db : Connected φ) (rows : List (DataRow ν))
  (opened : Option (List (DataRow ν)))

@[simp] theorem change_pending : (d.change db rows opened).pending db = opened :=
  Function.update_self _ _ _

@[simp] theorem change_nil_table : (d.change db [] opened).table = d.table := by
  unfold change
  rw [List.append_nil, Function.update_eq_self]

end Disk

namespace Sqlite

/-- What SQLite documents of these calls. A transaction cannot be begun inside another. A statement
that fails changes nothing, but may end the transaction with its rows lost; outside a transaction
every statement is permanent at once. -/
structure Lawful [DecidableEq φ] (sql : Sqlite σ φ ν) (disk : σ → Disk φ ν) : Prop where
  begin_ok : ∀ db s, (sql.exec db .begin s).1 = true → (disk s).pending db = none ∧
    disk (sql.exec db .begin s).2 = (disk s).change db [] (some [])
  begin_failed : ∀ db s, (sql.exec db .begin s).1 = false →
    disk (sql.exec db .begin s).2 = disk s
  insert_single : ∀ db r s, (sql.insert db r s).1 = true → (disk s).pending db = none →
    disk (sql.insert db r s).2 = (disk s).change db [r] none
  insert_within : ∀ db r s rows, (sql.insert db r s).1 = true → (disk s).pending db = some rows →
    disk (sql.insert db r s).2 = (disk s).change db [] (some (rows ++ [r]))
  insert_failed : ∀ db r s, (sql.insert db r s).1 = false →
    disk (sql.insert db r s).2 = disk s ∨ disk (sql.insert db r s).2 = (disk s).change db [] none
  commit_ok : ∀ db s, (sql.exec db .commit s).1 = true → ∃ rows, (disk s).pending db = some rows ∧
    disk (sql.exec db .commit s).2 = (disk s).change db rows none
  commit_failed : ∀ db s, (sql.exec db .commit s).1 = false →
    disk (sql.exec db .commit s).2 = disk s ∨
      disk (sql.exec db .commit s).2 = (disk s).change db [] none
  rollback : ∀ db s, disk (sql.exec db .rollback s).2 = disk s ∨
    disk (sql.exec db .rollback s).2 = (disk s).change db [] none
  select : ∀ db device limit s, ∃ found : List (DataRow ν),
    found.Perm (((disk s).table db.path).filter fun r => r.deviceId = bindText device) ∧
      found.Pairwise (fun a b => b.ts ≤ a.ts) ∧
      sql.select db device limit s <+: if 0 ≤ limit then found.take limit.toNat else found

/-- No call fails that SQLite can make. -/
structure Healthy (sql : Sqlite σ φ ν) (disk : σ → Disk φ ν) : Prop where
  begins : ∀ db s, (disk s).pending db = none → (sql.exec db .begin s).1 = true
  inserts : ∀ db r s, (sql.insert db r s).1 = true
  commits : ∀ db s, (disk s).pending db ≠ none → (sql.exec db .commit s).1 = true

/-! ## `Database` -/

def execNoThrow (sql : Sqlite σ φ ν) (db : Connected φ) (text : Sql) (s : σ) : σ :=
  (sql.exec db text s).2

/-- One turn of the loop in `insertBatch`; a row that fails is skipped. -/
def insertRow (sql : Sqlite σ φ ν) (db : Connected φ) (s : σ) (r : DataRow ν) : σ :=
  (sql.insert db r.bound s).2

def insertBatch (sql : Sqlite σ φ ν) (db : Connected φ) (rows : List (DataRow ν)) (s : σ) : σ :=
  if rows.isEmpty then s
  else
    let s := sql.execNoThrow db .begin s
    let s := rows.foldl (sql.insertRow db) s
    let (ok, s) := sql.exec db .commit s
    if ok then s else sql.execNoThrow db .rollback s

def query (sql : Sqlite σ φ ν) (db : Connected φ) (deviceId : List UInt8) (limit : Int) (s : σ) :
    List (DataRow ν) :=
  sql.select db deviceId limit s

/-! ## `insertBatch` call by call -/

/-- The next call of an `insertBatch`. -/
inductive Progress (φ ν : Type)
  | begin (db : Connected φ) (rows : List (DataRow ν))
  | insert (db : Connected φ) (rows : List (DataRow ν))
  | rollback (db : Connected φ)

/-- The connection of a batch. -/
def Progress.db : Progress φ ν → Connected φ
  | .begin db _ => db
  | .insert db _ => db
  | .rollback db => db

/-- The rows that are not handed over yet. -/
def Progress.rows : Progress φ ν → List (DataRow ν)
  | .begin _ rows => rows
  | .insert _ rows => rows
  | .rollback _ => []

/-- One call; a batch without rows left is committed. -/
def advance (sql : Sqlite σ φ ν) (s : σ) : Progress φ ν → Option (Progress φ ν) × σ
  | .begin db rows => (some (.insert db rows), sql.execNoThrow db .begin s)
  | .insert db (r :: rows) => (some (.insert db rows), sql.insertRow db s r)
  | .insert db [] =>
      let (ok, s) := sql.exec db .commit s
      if ok then (none, s) else (some (.rollback db), s)
  | .rollback db => (none, sql.execNoThrow db .rollback s)

/-- The calls that are left, made one after the other. -/
def finish (sql : Sqlite σ φ ν) : Nat → Option (Progress φ ν) → σ → Option (Progress φ ν) × σ
  | 0, p, s => (p, s)
  | _ + 1, none, s => (none, s)
  | n + 1, some p, s => sql.finish n (sql.advance s p).1 (sql.advance s p).2

/-! ## Call by call and all at once -/

theorem finish_inserts (sql : Sqlite σ φ ν) (db : Connected φ) (n : Nat)
    (rows : List (DataRow ν)) (s : σ) :
    sql.finish (rows.length + n) (some (.insert db rows)) s =
      sql.finish n (some (.insert db [])) (rows.foldl (sql.insertRow db) s) := by
  induction rows generalizing s with
  | nil => rw [List.length_nil, Nat.zero_add, List.foldl_nil]
  | cons r rows ih =>
      rw [List.length_cons, Nat.succ_add, List.foldl_cons, ← ih]
      rfl

theorem finish_commit (sql : Sqlite σ φ ν) (db : Connected φ) (s : σ) :
    sql.finish 2 (some (.insert db [])) s = (none,
      if (sql.exec db .commit s).1 then (sql.exec db .commit s).2
      else sql.execNoThrow db .rollback (sql.exec db .commit s).2) := by
  have hcommit : sql.advance s (.insert db []) =
      if (sql.exec db .commit s).1 then (none, (sql.exec db .commit s).2)
      else (some (.rollback db), (sql.exec db .commit s).2) := rfl
  have hfinish : sql.finish 2 (some (.insert db [])) s =
      sql.finish 1 (sql.advance s (.insert db [])).1 (sql.advance s (.insert db [])).2 := rfl
  rw [hfinish, hcommit]
  split_ifs <;> rfl

/-- The calls of a batch, one after the other, are `insertBatch`. -/
theorem finish_batch (sql : Sqlite σ φ ν) (db : Connected φ) {rows : List (DataRow ν)}
    (hrows : rows ≠ []) (s : σ) :
    sql.finish (rows.length + 3) (some (.begin db rows)) s =
      (none, sql.insertBatch db rows s) := by
  have hbegin : sql.finish (rows.length + 3) (some (.begin db rows)) s =
      sql.finish (rows.length + 2) (some (.insert db rows)) (sql.execNoThrow db .begin s) := rfl
  have hempty : ¬ rows.isEmpty = true := fun h => hrows (List.isEmpty_iff.mp h)
  rw [hbegin, finish_inserts, finish_commit]
  unfold insertBatch
  rw [if_neg hempty]

/-! ## What is kept -/

section Kept

variable [DecidableEq φ] {sql : Sqlite σ φ ν} {disk : σ → Disk φ ν} {db : Connected φ}

/-- Of the open transaction and the rows given, some rows became permanent and some are in the open
transaction, in order and each once. -/
structure Kept (db : Connected φ) (rows : List (DataRow ν)) (d d' : Disk φ ν) : Prop where
  table : ∃ added, d'.table = Function.update d.table db.path (d.table db.path ++ added) ∧
    (added ++ d'.left db).Sublist (d.left db ++ rows)
  others : ∀ c, c ≠ db → d'.pending c = d.pending c

variable {rows : List (DataRow ν)} {d d' d'' : Disk φ ν}

theorem kept_change {added : List (DataRow ν)} {opened : Option (List (DataRow ν))}
    (h : (added ++ opened.getD []).Sublist (d.left db ++ rows)) :
    Kept db rows d (d.change db added opened) := by
  refine ⟨⟨added, rfl, ?_⟩, fun c hc => Function.update_of_ne hc _ _⟩
  unfold Disk.left
  rw [Disk.change_pending]
  exact h

theorem kept_same (rows : List (DataRow ν)) : Kept db rows d d := by
  refine ⟨⟨[], ?_, List.sublist_append_left _ _⟩, fun _ _ => rfl⟩
  rw [List.append_nil, Function.update_eq_self]

/-- The transaction is gone with its rows. -/
theorem kept_dropped (rows : List (DataRow ν)) : Kept db rows d (d.change db [] none) :=
  kept_change (List.nil_sublist _)

theorem Kept.trans {rows' : List (DataRow ν)} (h : Kept db rows d d')
    (h' : Kept db rows' d' d'') : Kept db (rows ++ rows') d d'' := by
  obtain ⟨⟨added, htable, hsub⟩, hothers⟩ := h
  obtain ⟨⟨added', htable', hsub'⟩, hothers'⟩ := h'
  refine ⟨⟨added ++ added', ?_, ?_⟩, fun c hc => (hothers' c hc).trans (hothers c hc)⟩
  · rw [htable', htable, Function.update_self, Function.update_idem, List.append_assoc]
  · calc (added ++ added') ++ d''.left db
        = added ++ (added' ++ d''.left db) := List.append_assoc _ _ _
      _ <+ added ++ (d'.left db ++ rows') := hsub'.append_left added
      _ = (added ++ d'.left db) ++ rows' := (List.append_assoc _ _ _).symm
      _ <+ (d.left db ++ rows) ++ rows' := hsub.append_right rows'
      _ = d.left db ++ (rows ++ rows') := List.append_assoc _ _ _

theorem Lawful.kept_begin (h : sql.Lawful disk) (db : Connected φ) (s : σ) :
    Kept db [] (disk s) (disk (sql.execNoThrow db .begin s)) := by
  unfold execNoThrow
  rcases hok : (sql.exec db .begin s).1 with _ | _
  · rw [h.begin_failed db s hok]
    exact kept_same []
  · obtain ⟨-, hdisk⟩ := h.begin_ok db s hok
    rw [hdisk]
    exact kept_change (List.nil_sublist _)

theorem Lawful.kept_insert (h : sql.Lawful disk) (db : Connected φ) (s : σ) (r : DataRow ν) :
    Kept db [r.bound] (disk s) (disk (sql.insertRow db s r)) := by
  unfold insertRow
  rcases hok : (sql.insert db r.bound s).1 with _ | _
  · rcases h.insert_failed db r.bound s hok with hdisk | hdisk
    · rw [hdisk]
      exact kept_same _
    · rw [hdisk]
      exact kept_dropped _
  · rcases hpending : (disk s).pending db with _ | opened
    · -- outside a transaction the row is permanent
      rw [h.insert_single db r.bound s hok hpending]
      exact kept_change (List.sublist_append_right _ _)
    · rw [h.insert_within db r.bound s opened hok hpending]
      apply kept_change
      unfold Disk.left
      rw [hpending]
      exact List.Sublist.refl _

theorem Lawful.kept_commit (h : sql.Lawful disk) (db : Connected φ) (s : σ) :
    Kept db [] (disk s) (disk (sql.exec db .commit s).2) := by
  rcases hok : (sql.exec db .commit s).1 with _ | _
  · rcases h.commit_failed db s hok with hdisk | hdisk
    · rw [hdisk]
      exact kept_same _
    · rw [hdisk]
      exact kept_dropped _
  · obtain ⟨opened, hpending, hdisk⟩ := h.commit_ok db s hok
    rw [hdisk]
    apply kept_change
    unfold Disk.left
    rw [hpending]
    exact List.Sublist.refl _

theorem Lawful.kept_rollback (h : sql.Lawful disk) (db : Connected φ) (s : σ) :
    Kept db [] (disk s) (disk (sql.execNoThrow db .rollback s)) := by
  rcases h.rollback db s with hdisk | hdisk
  · exact hdisk ▸ kept_same _
  · exact hdisk ▸ kept_dropped _

/-- A call hands over the next row, if it hands over any. -/
theorem Lawful.kept_advance (h : sql.Lawful disk) (p : Progress φ ν) (s : σ) :
    ∃ given rest : List (DataRow ν), p.rows = given ++ rest ∧
      Kept p.db (given.map DataRow.bound) (disk s) (disk (sql.advance s p).2) ∧
      (∀ p', (sql.advance s p).1 = some p' → p'.db = p.db ∧ p'.rows = rest) ∧
      ((sql.advance s p).1 = none → rest = []) := by
  cases p with
  | begin db rows =>
      refine ⟨[], rows, rfl, h.kept_begin db s, ?_, fun hnone => by cases hnone⟩
      intro p' hp'
      obtain rfl := Option.some.inj hp'
      exact ⟨rfl, rfl⟩
  | insert db rows =>
      cases rows with
      | nil =>
          have hkept := h.kept_commit db s
          unfold advance
          dsimp only
          split_ifs
          · exact ⟨[], [], rfl, hkept, (fun p' hp' => by cases hp'), fun _ => rfl⟩
          · refine ⟨[], [], rfl, hkept, ?_, fun hnone => by cases hnone⟩
            intro p' hp'
            obtain rfl := Option.some.inj hp'
            exact ⟨rfl, rfl⟩
      | cons r rows =>
          refine ⟨[r], rows, rfl, h.kept_insert db s r, ?_, fun hnone => by cases hnone⟩
          intro p' hp'
          obtain rfl := Option.some.inj hp'
          exact ⟨rfl, rfl⟩
  | rollback db =>
      exact ⟨[], [], rfl, h.kept_rollback db s, (fun p' hp' => by cases hp'), fun _ => rfl⟩

end Kept

/-! ## Batches without a failure -/

section Healthy

variable [DecidableEq φ] {sql : Sqlite σ φ ν} {disk : σ → Disk φ ν}

/-- The transaction of a batch: nothing is permanent before its commit. `given` are its rows. -/
def Within (given : List (DataRow ν)) (d : Disk φ ν) : Progress φ ν → Prop
  | .begin db rows => rows = given ∧ d.pending db = none
  | .insert db rows => ∃ most, most ++ rows = given ∧
      d.pending db = some (most.map DataRow.bound)
  | .rollback _ => False

/-- A call leaves the tables as they are, or it is the commit and adds the whole batch. -/
theorem Healthy.advance (h : sql.Lawful disk) (hhealthy : sql.Healthy disk)
    {given : List (DataRow ν)} {p : Progress φ ν} {s : σ} (hp : Within given (disk s) p) :
    (∃ p', (sql.advance s p).1 = some p' ∧ p'.db = p.db ∧
      Within given (disk (sql.advance s p).2) p' ∧
      (disk (sql.advance s p).2).table = (disk s).table) ∨
    (sql.advance s p).1 = none ∧ (disk (sql.advance s p).2).pending p.db = none ∧
      (disk (sql.advance s p).2).table = Function.update (disk s).table p.db.path
        ((disk s).table p.db.path ++ given.map DataRow.bound) := by
  cases p with
  | begin db rows =>
      obtain ⟨hrows, hpending⟩ := hp
      obtain ⟨-, hdisk⟩ := h.begin_ok db s (hhealthy.begins db s hpending)
      refine .inl ⟨_, rfl, rfl, ⟨[], hrows, ?_⟩, ?_⟩
      · show (disk (sql.exec db .begin s).2).pending db = some []
        rw [hdisk, Disk.change_pending]
      · show (disk (sql.exec db .begin s).2).table = (disk s).table
        rw [hdisk, Disk.change_nil_table]
  | insert db rows =>
      obtain ⟨most, hgiven, hpending⟩ := hp
      cases rows with
      | nil =>
          have hok := hhealthy.commits db s (by rw [hpending]; exact fun hnone => by cases hnone)
          obtain ⟨opened, hopened, hdisk⟩ := h.commit_ok db s hok
          obtain rfl := Option.some.inj (hopened.symm.trans hpending)
          rw [List.append_nil] at hgiven
          have hadvance : sql.advance s (.insert db []) = (none, (sql.exec db .commit s).2) := by
            unfold Sqlite.advance
            dsimp only
            rw [hok]
            rfl
          rw [hadvance, ← hgiven]
          refine .inr ⟨rfl, ?_, ?_⟩
          · show (disk (sql.exec db .commit s).2).pending db = none
            rw [hdisk, Disk.change_pending]
          · show (disk (sql.exec db .commit s).2).table = _
            rw [hdisk]
            rfl
      | cons r rows =>
          have hdisk := h.insert_within db r.bound s _ (hhealthy.inserts db r.bound s) hpending
          refine .inl ⟨_, rfl, rfl, ⟨most ++ [r], ?_, ?_⟩, ?_⟩
          · rw [List.append_assoc]
            exact hgiven
          · show (disk (sql.insert db r.bound s).2).pending db = _
            rw [hdisk, Disk.change_pending, List.map_append]
            rfl
          · show (disk (sql.insert db r.bound s).2).table = _
            rw [hdisk, Disk.change_nil_table]
  | rollback db => exact hp.elim

end Healthy

/-! ## A SQLite that keeps the laws -/

section Memory

variable [DecidableEq φ]

/-- Newest first. -/
def NotOlder (a b : DataRow ν) : Prop := b.ts ≤ a.ts

instance : DecidableRel (NotOlder (ν := ν)) := fun a b => inferInstanceAs (Decidable (b.ts ≤ a.ts))

instance : Std.Total (NotOlder (ν := ν)) := ⟨fun a b => le_total b.ts a.ts⟩

instance : IsTrans (DataRow ν) NotOlder := ⟨fun _ _ _ hab hbc => le_trans hbc hab⟩

/-- Rows in memory, and no failure but those of a misplaced `BEGIN`, `COMMIT` or `ROLLBACK`. -/
def memory : Sqlite (Disk φ ν) φ ν where
  exec db text d :=
    match text, d.pending db with
    | .begin, none => (true, d.change db [] (some []))
    | .begin, some _ => (false, d)
    | .commit, some rows => (true, d.change db rows none)
    | .rollback, some _ => (true, d.change db [] none)
    | _, none => (false, d)
  insert db r d :=
    match d.pending db with
    | none => (true, d.change db [r] none)
    | some rows => (true, d.change db [] (some (rows ++ [r])))
  select db device limit d :=
    let found :=
      ((d.table db.path).filter fun r => r.deviceId = bindText device).insertionSort NotOlder
    if 0 ≤ limit then found.take limit.toNat else found

end Memory

end Sqlite

end EdgeGateway
