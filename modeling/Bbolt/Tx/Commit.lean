/-
`Commit`, `Rollback` and `OnCommit` of `tx.go`. A commit of an open writer rebalances, spills,
writes the freelist page, grows the file, writes the dirty pages and syncs, checks in strict mode,
writes the meta page and syncs, closes and runs the commit handlers; an error anywhere rolls the
transaction back, physically. A failed spill may leave the file unmapped (`db.allocate` remaps it
as the high water mark grows), and the rollback then reads the mapping as the failure left it.

Each step is described once (`Step`: the calls it makes, stopping at the first failure, and what
it keeps), and `commit_end` chains them: a commit makes a prefix of the planned calls
`commitPlan` and then fails at one call and rolls back, or panics, or makes them all and closes.
-/
import Bbolt.Tx.Write
import Bbolt.Tx.Freelist

namespace Bbolt

/-! ## The methods -/

/-- `if err := step(); err != nil { tx.rollback(); return err }`, then go on with `k`. -/
def orRollback (r : Option Err × TxState) (k : TxState → Ret (Option Err)) : Ret (Option Err) :=
  match r with
  | (some e, s) => .ok (some e) (Tx.rollback s)
  | (none, s) => k s

/-- Go on with `k` after a method that returned no error; an error or a panic ends it. -/
def Ret.andThen (r : Ret (Option Err)) (k : TxState → Ret (Option Err)) : Ret (Option Err) :=
  match r with
  | .panic msg s => .panic msg s
  | .ok (some e) s => .ok (some e) s
  | .ok none s => k s

/-- `tx.root.spill()`: on success the dirty pages, high water mark and root spilling leaves; a
failure may have unmapped the file. -/
def TxState.spill (env : Env) (s : TxState) : Option Err × TxState :=
  match s.call env .spill with
  | (some e, s) => (some e, { s with db.data := s.db.data && !env.unmapped })
  | (none, s) =>
    (none, { s with
      tx.pages := env.spill.pages
      tx.meta.pgid := env.spill.pgid
      tx.root := env.spill.root })

/-- `int(tx.meta.pgid+1) * tx.db.pageSize`, the size `Commit` grows the file to. -/
def growSize (s : TxState) : Int := toInt64 (toInt64 ((s.tx.meta.pgid + 1) % 2 ^ 64) * s.db.pageSize)

def checkFail (errs : List String) : String := "check fail: " ++ "\n".intercalate errs

/-- The end of `Commit()`: the meta page is written and synced, the transaction closed and the
commit handlers run. -/
def Tx.commitFinishing (K : Consts) (env : Env) (s : TxState) : Ret (Option Err) :=
  orRollback (Tx.writeMeta K env s) fun s =>
  let s := Tx.close s
  .ok none { s with trace := s.trace ++ s.tx.commitHandlers.map .handler }

/-- `Commit()` from the dirty page writes on, with the strict-mode check. -/
def Tx.commitWriting (K : Consts) (env : Env) (s : TxState) : Ret (Option Err) :=
  orRollback (Tx.write K env s) fun s =>
  let s := if s.db.StrictMode then s.emit .check else s
  if s.db.StrictMode && !env.check.isEmpty then .panic (checkFail env.check) s
  else Tx.commitFinishing K env s

/-- `Commit()`. -/
def Tx.Commit (K : Consts) (env : Env) (s : TxState) : Ret (Option Err) :=
  if s.tx.managed then .panic "assertion failed: managed tx commit not allowed" s
  else if !s.tx.db then .ok (some .ErrTxClosed) s
  else if !s.tx.writable then .ok (some .ErrTxNotWritable) s
  else
    let s := s.emit .rebalance
    let opgid := s.tx.meta.pgid
    orRollback (s.spill env) fun s =>
    let s := { s with tx.meta.root := s.tx.root }
    Ret.andThen (Tx.commitFreelist K env s) fun s =>
    orRollback (if s.tx.meta.pgid > opgid then s.call env (.grow (growSize s)) else (none, s))
      (Tx.commitWriting K env)

/-- `Rollback()`: the freelist is reverted in memory and the transaction closed. -/
def Tx.Rollback (s : TxState) : Ret (Option Err) :=
  if s.tx.managed then .panic "assertion failed: managed tx rollback not allowed" s
  else if !s.tx.db then .ok (some .ErrTxClosed) s
  else .ok none (Tx.nonPhysicalRollback s)

/-- `OnCommit(fn)`: `fn` runs after a successful commit. -/
def Tx.OnCommit (fn : Nat) (s : TxState) : TxState :=
  { s with tx.commitHandlers := s.tx.commitHandlers ++ [fn] }

/-! ## The planned calls -/

/-- The dirty pages `write` finds: what spilling left, with the freelist page registered. -/
def commitPages (K : Consts) (env : Env) (s : TxState) : PageCache :=
  env.spill.pages.set (freelistPgid K s.tx.meta.flid s.db.pageSize)
    (freelistPage env (freelistPgid K s.tx.meta.flid s.db.pageSize)
      (freelistOverflow (freelistPages env.freelistSize s.db.pageSize)))

/-- The meta `writeMeta` writes: the transaction's, with the root and high water mark spilling
left. -/
def commitMeta (env : Env) (s : TxState) : Meta :=
  { s.tx.meta with root := env.spill.root, pgid := env.spill.pgid }

def growEvents (env : Env) (s : TxState) : List Event :=
  if env.spill.pgid > s.tx.meta.pgid then
    [.grow (toInt64 (toInt64 ((env.spill.pgid + 1) % 2 ^ 64) * s.db.pageSize))]
  else []

def checkEvents (db : DB) : List Event := if db.StrictMode then [.check] else []

def commitWrites (K : Consts) (env : Env) (s : TxState) : List Event :=
  writeEvents K { s with tx.pages := commitPages K env s }

/-- The calls a commit makes before the meta write when nothing fails. -/
def commitPrefix (K : Consts) (env : Env) (s : TxState) : List Event :=
  [.rebalance, .spill, .freelistWrite (freelistPgid K s.tx.meta.flid s.db.pageSize)] ++
    growEvents env s ++ commitWrites K env s ++ syncEvents K s.db ++
    poolPuts (dirtyPages { s with tx.pages := commitPages K env s }) ++ checkEvents s.db

def metaEvents (K : Consts) (env : Env) (s : TxState) : List Event :=
  .writeMeta (commitMeta env s)
    (toInt64 (toInt64 (metaPgid (commitMeta env s)) * s.db.pageSize)) :: syncEvents K s.db

/-- Every call a commit makes before closing when nothing fails. -/
def commitPlan (K : Consts) (env : Env) (s : TxState) : List Event :=
  commitPrefix K env s ++ metaEvents K env s

def rollbackEvents (s : TxState) : List Event := undoEvents s true ++ closeEvents s.tx.writable

/-! ## Steps -/

/-- What every step of a commit keeps: whether the transaction is writable, managed and open,
its handlers, its `txid` and the database. -/
structure Frame (s s' : TxState) : Prop where
  writable : s'.tx.writable = s.tx.writable
  managed : s'.tx.managed = s.tx.managed
  db : s'.tx.db = s.tx.db
  handlers : s'.tx.commitHandlers = s.tx.commitHandlers
  txid : s'.tx.meta.txid = s.tx.meta.txid
  dbase : s'.db = s.db

theorem Frame.refl (s : TxState) : Frame s s := ⟨rfl, rfl, rfl, rfl, rfl, rfl⟩

theorem Frame.trans {s₁ s₂ s₃ : TxState} (h₁ : Frame s₁ s₂) (h₂ : Frame s₂ s₃) : Frame s₁ s₃ :=
  ⟨h₂.1.trans h₁.1, h₂.2.trans h₁.2, h₂.3.trans h₁.3, h₂.4.trans h₁.4, h₂.5.trans h₁.5,
    h₂.6.trans h₁.6⟩

theorem Frame.emit (s : TxState) (ev : Event) : Frame s (s.emit ev) := ⟨rfl, rfl, rfl, rfl, rfl, rfl⟩

theorem Frame.withData {s t : TxState} (h : Frame s t) (d : Bool) :
    Frame { s with db.data := d } { t with db.data := d } :=
  ⟨h.writable, h.managed, h.db, h.handlers, h.txid, by rw [h.dbase]⟩

/-- A step from `s` that makes the calls `δ` in order: all succeed and it returns no error, or it
stops right after the first that fails and returns that error. It keeps the frame. -/
structure Step (env : Env) (s : TxState) (δ : List Event) (r : Option Err × TxState) : Prop where
  frame : Frame s r.2
  run : (r.1 = none ∧ AllOk env s.trace δ ∧ r.2.trace = s.trace ++ δ) ∨
    ∃ W f R e, δ = W ++ f :: R ∧ AllOk env s.trace W ∧ f.fallible ∧
      env.io (s.trace ++ W) f = some e ∧ r.1 = some e ∧ r.2.trace = s.trace ++ W ++ [f]

section Steps

variable {env : Env}

theorem Step.call (ev : Event) (hf : ev.fallible) (s : TxState) :
    Step env s [ev] (s.call env ev) := by
  refine ⟨Frame.emit s ev, ?_⟩
  cases h : env.io s.trace ev with
  | none => exact .inl ⟨h, ⟨fun _ => h, trivial⟩, rfl⟩
  | some e => exact .inr ⟨[], ev, [], e, rfl, trivial, hf, by simpa using h, h,
      by simp [TxState.call, TxState.emit]⟩

theorem Step.skip (s : TxState) : Step env s [] (none, s) :=
  ⟨Frame.refl s, .inl ⟨rfl, trivial, by simp⟩⟩

theorem Step.quiet {s : TxState} {δ : List Event} (hq : ∀ x ∈ δ, x.fallible = false) :
    Step env s δ (none, { s with trace := s.trace ++ δ }) :=
  ⟨⟨rfl, rfl, rfl, rfl, rfl, rfl⟩, .inl ⟨rfl, allOk_quiet hq, rfl⟩⟩

theorem Step.of_frame {s t : TxState} {δ : List Event} {r : Option Err × TxState}
    (hf : Frame s t) (ht : t.trace = s.trace) (h : Step env t δ r) : Step env s δ r :=
  ⟨hf.trans h.frame, by have := h.run; rwa [ht] at this⟩

theorem Step.andThen {s : TxState} {δ₁ δ₂ : List Event} {r : Option Err × TxState}
    {k : TxState → Option Err × TxState} (h₁ : Step env s δ₁ r)
    (h₂ : ∀ s₁, r = (none, s₁) → Step env s₁ δ₂ (k s₁)) :
    Step env s (δ₁ ++ δ₂) (andThen r k) := by
  obtain ⟨r₁, s₁⟩ := r
  obtain ⟨hfr, ⟨rfl, hall, ht⟩ | ⟨W, f, R, e, rfl, hW, hf, he, rfl, ht⟩⟩ := h₁
  · dsimp only at hfr ht
    obtain ⟨hfr₂, ⟨hr, hall₂, ht₂⟩ | ⟨W, f, R, e, rfl, hW, hf, he, hr, ht₂⟩⟩ := h₂ s₁ rfl
    · rw [ht] at hall₂ ht₂
      exact ⟨hfr.trans hfr₂, .inl ⟨hr, allOk_append.2 ⟨hall, hall₂⟩, by simpa using ht₂⟩⟩
    · rw [ht] at hW he ht₂
      exact ⟨hfr.trans hfr₂, .inr ⟨δ₁ ++ W, f, R, e, by simp, allOk_append.2 ⟨hall, hW⟩, hf,
        by simpa using he, hr, by simpa using ht₂⟩⟩
  · exact ⟨hfr, .inr ⟨W, f, R ++ δ₂, e, by simp, hW, hf, he, rfl, ht⟩⟩

theorem Step.issue {s : TxState} {evs : List Event} (hf : ∀ x ∈ evs, x.fallible) :
    Step env s evs (s.issue env evs) := by
  rcases issue_spec s evs hf with ⟨hall, hi⟩ | ⟨W, f, R, e, rfl, hW, he, hi⟩
  · rw [hi]; exact ⟨⟨rfl, rfl, rfl, rfl, rfl, rfl⟩, .inl ⟨rfl, hall, rfl⟩⟩
  · rw [hi]
    exact ⟨⟨rfl, rfl, rfl, rfl, rfl, rfl⟩,
      .inr ⟨W, f, R, e, rfl, hW, hf f (by simp), he, rfl, rfl⟩⟩

theorem Step.sync (K : Consts) (s : TxState) : Step env s (syncEvents K s.db) (s.sync K env) := by
  unfold TxState.sync syncEvents
  split
  · exact Step.call .fdatasync rfl s
  · exact Step.skip s

theorem Step.update {s t : TxState} (hf : Frame s t) (ht : t.trace = s.trace) :
    Step env s [] (none, t) :=
  ⟨hf, .inl ⟨rfl, trivial, by simpa using ht⟩⟩

theorem Step.write (K : Consts) (s : TxState) :
    Step env s (writeEvents K s ++ (syncEvents K s.db ++ poolPuts (dirtyPages s)))
      (Tx.write K env s) := by
  rw [write_eq]
  refine Step.of_frame (t := { s with tx.pages := .empty }) ⟨rfl, rfl, rfl, rfl, rfl, rfl⟩ rfl
    (Step.andThen (Step.issue writeEvents_fallible) fun s₁ h₁ => ?_)
  have hdb : s₁.db = s.db := by
    simpa [h₁] using (issue_keeps env { s with tx.pages := .empty } (writeEvents K s)).2
  have h : Step env s₁ (syncEvents K s₁.db) (s₁.sync K env) := Step.sync K s₁
  rw [hdb] at h
  exact Step.andThen h fun s₂ _ => Step.quiet poolPuts_quiet

theorem Step.writeMeta (K : Consts) (s : TxState) :
    Step env s (.writeMeta s.tx.meta (toInt64 (toInt64 (metaPgid s.tx.meta) * s.db.pageSize)) ::
      syncEvents K s.db) (Tx.writeMeta K env s) := by
  unfold Tx.writeMeta
  refine Step.andThen (Step.call (.writeMeta _ _) rfl s) fun s₁ h₁ => ?_
  obtain rfl := (Prod.mk.inj h₁).2.symm
  exact Step.sync K _

theorem Step.grow (s : TxState) (c : Prop) [Decidable c] (sz : Int) :
    Step env s (if c then [.grow sz] else []) (if c then s.call env (.grow sz) else (none, s)) := by
  split
  · exact Step.call (.grow sz) rfl s
  · exact Step.skip s

end Steps

/-! ## How a commit ends -/

/-- `s'` is `s` closed after the calls `δ`: the transaction is closed, a writer's `db.rwtx`
cleared, and nothing else of the frame changed. -/
structure Closed (s s' : TxState) (δ : List Event) : Prop where
  closed : s'.tx.db = false
  writable : s'.tx.writable = s.tx.writable
  managed : s'.tx.managed = s.tx.managed
  handlers : s'.tx.commitHandlers = s.tx.commitHandlers
  dbase : s'.db = { s.db with rwtx := !s.tx.writable && s.db.rwtx }
  trace : s'.trace = s.trace ++ δ

theorem Closed.of_frame {s t s' : TxState} {δ₁ δ₂ : List Event} (hf : Frame s t)
    (ht : t.trace = s.trace ++ δ₁) (h : Closed t s' δ₂) : Closed s s' (δ₁ ++ δ₂) :=
  ⟨h.closed, h.writable.trans hf.writable, h.managed.trans hf.managed,
    h.handlers.trans hf.handlers, by rw [h.dbase, hf.dbase, hf.writable], by simp [h.trace, ht]⟩

theorem close_closed {s : TxState} (h : s.tx.db) : Closed s (Tx.close s) (closeEvents s.tx.writable) := by
  rw [close_open h]; exact ⟨rfl, rfl, rfl, rfl, rfl, rfl⟩

theorem rollback_closed {s : TxState} (h : s.tx.db) : Closed s (Tx.rollback s) (rollbackEvents s) := by
  have := rollback_open h true
  simp only [if_true] at this
  rw [this]
  exact Closed.of_frame (t := { s with trace := s.trace ++ undoEvents s true })
    ⟨rfl, rfl, rfl, rfl, rfl, rfl⟩ rfl (close_closed h)

theorem rollbackEvents_of_frame {s t : TxState} (hf : Frame s t) :
    rollbackEvents t = rollbackEvents s := by
  simp only [rollbackEvents, undoEvents, hf.writable, hf.txid, hf.dbase]

/-- How a commit of `s` with planned calls `P` ends. It fails at a call after the calls before it
succeeded, and rolls back with the mapping `d` the failure left, which only a failed spill
changes; or it panics after a run of planned calls that succeeded; or every planned call
succeeds, and it closes and runs the commit handlers. -/
inductive CommitEnd (env : Env) (s : TxState) (P : List Event) : Ret (Option Err) → Prop
  | fail (W : List Event) (f : Event) (R : List Event) (e : Err) (d : Bool) (s' : TxState) :
      P = W ++ f :: R → AllOk env s.trace W → f.fallible → env.io (s.trace ++ W) f = some e →
      (d = s.db.data ∨ f = .spill) →
      Closed { s with db.data := d } s' (W ++ f :: rollbackEvents { s with db.data := d }) →
      CommitEnd env s P (.ok (some e) s')
  | panic (W : List Event) (msg : String) (s' : TxState) :
      W <+: P → AllOk env s.trace W → Frame s s' → s'.trace = s.trace ++ W →
      CommitEnd env s P (.panic msg s')
  | done (s' : TxState) : AllOk env s.trace P →
      Closed s s' (P ++ closeEvents s.tx.writable ++ s.tx.commitHandlers.map .handler) →
      CommitEnd env s P (.ok none s')

section Ends

variable {env : Env}

theorem CommitEnd.prepend {s t : TxState} {δ P : List Event} {r : Ret (Option Err)}
    (h : CommitEnd env t P r) (hf : Frame s t) (ht : t.trace = s.trace ++ δ)
    (hall : AllOk env s.trace δ) : CommitEnd env s (δ ++ P) r := by
  cases h with
  | fail W f R e d s' hP hW hfl he hd hc =>
    refine .fail (δ ++ W) f R e d s' (by simp [hP]) (allOk_append.2 ⟨hall, ht ▸ hW⟩) hfl
      (by simpa [ht] using he) (by rwa [← hf.dbase]) ?_
    simpa [rollbackEvents_of_frame (hf.withData d)] using Closed.of_frame (hf.withData d) ht hc
  | panic W msg s' hW hall' hf' ht' =>
    exact .panic (δ ++ W) msg s' ((List.prefix_append_right_inj δ).2 hW)
      (allOk_append.2 ⟨hall, ht ▸ hall'⟩) (hf.trans hf') (by simp [ht', ht])
  | done s' hall' hc =>
    refine .done s' (allOk_append.2 ⟨hall, ht ▸ hall'⟩) ?_
    simpa [hf.writable, hf.handlers] using Closed.of_frame hf ht hc

theorem CommitEnd.of_frame {s t : TxState} {P : List Event} {r : Ret (Option Err)}
    (h : CommitEnd env t P r) (hf : Frame s t) (ht : t.trace = s.trace) : CommitEnd env s P r := by
  simpa using CommitEnd.prepend (δ := []) h hf (by simpa using ht) trivial

theorem orRollback_end {s : TxState} {δ P : List Event} {r : Option Err × TxState}
    {k : TxState → Ret (Option Err)} (ho : s.tx.db) (h : Step env s δ r)
    (hk : ∀ t, r = (none, t) → Frame s t → CommitEnd env t P (k t)) :
    CommitEnd env s (δ ++ P) (orRollback r k) := by
  obtain ⟨r₁, t⟩ := r
  obtain ⟨hf, ⟨rfl, hall, ht⟩ | ⟨W, f, R, e, rfl, hW, hfl, he, rfl, ht⟩⟩ := h
  · exact (hk t rfl hf).prepend hf ht hall
  · refine .fail W f (R ++ P) e s.db.data _ (by simp) hW hfl he (.inl rfl) ?_
    have hc := Closed.of_frame hf (ht.trans (List.append_assoc _ _ _))
      (rollback_closed (hf.db.trans ho))
    simpa [rollbackEvents_of_frame hf] using hc

theorem commitFreelist_end (K : Consts) {s : TxState} {id : Nat} {P : List Event}
    {k : TxState → Ret (Option Err)} (ho : s.tx.db)
    (hid : freelistPgid K s.tx.meta.flid s.db.pageSize = id)
    (hk : CommitEnd env { s.emit (.freelistWrite id) with
        tx.pages := s.tx.pages.set id
          (freelistPage env id (freelistOverflow (freelistPages env.freelistSize s.db.pageSize))) } P
      (k { s.emit (.freelistWrite id) with
        tx.pages := s.tx.pages.set id
          (freelistPage env id (freelistOverflow (freelistPages env.freelistSize s.db.pageSize))) })) :
    CommitEnd env s (.freelistWrite id :: P) (Ret.andThen (Tx.commitFreelist K env s) k) := by
  subst hid
  rcases commitFreelist_cases K env s with ⟨-, h⟩ | ⟨-, ⟨e, he, h⟩ | ⟨he, h⟩⟩ <;> rw [h]
  · exact .panic [] _ s List.nil_prefix trivial (Frame.refl s) (by simp)
  · refine .fail [] _ P e s.db.data _ rfl trivial rfl (by simpa using he) (.inl rfl) ?_
    simpa using Closed.of_frame (Frame.emit s _) rfl (rollback_closed (s := s.emit _) ho)
  · exact hk.prepend (δ := [_]) ⟨rfl, rfl, rfl, rfl, rfl, rfl⟩ rfl ⟨fun _ => he, trivial⟩

theorem check_end (msg : String) (c : Bool) {s : TxState} {P : List Event}
    {k : TxState → Ret (Option Err)}
    (hk : ∀ t, t.tx = s.tx → t.db = s.db → t.trace = s.trace ++ checkEvents s.db →
      CommitEnd env t P (k t)) :
    CommitEnd env s (checkEvents s.db ++ P)
      (if (if s.db.StrictMode then s.emit .check else s).db.StrictMode && c then
        .panic msg (if s.db.StrictMode then s.emit .check else s)
      else k (if s.db.StrictMode then s.emit .check else s)) := by
  unfold checkEvents
  cases hS : s.db.StrictMode <;>
    simp only [hS, TxState.emit_db, Bool.false_eq_true, Bool.false_and, Bool.true_and, if_false,
      if_true] at hk ⊢
  · simpa using hk s rfl rfl (by simp [checkEvents, hS])
  · have hq : AllOk env s.trace [.check] := allOk_quiet (by simp [Event.fallible])
    cases c
    · simpa using (hk (s.emit .check) rfl rfl (by simp [checkEvents, hS])).prepend
        (Frame.emit s _) rfl hq
    · exact .panic [.check] msg _ (List.prefix_append _ _) hq (Frame.emit s _) rfl

theorem done_end {s : TxState} (ho : s.tx.db) :
    CommitEnd env s [] (.ok none { Tx.close s with
      trace := (Tx.close s).trace ++ (Tx.close s).tx.commitHandlers.map .handler }) := by
  have hc := close_closed ho
  exact .done _ trivial ⟨hc.closed, hc.writable, hc.managed, hc.handlers, hc.dbase,
    by simp [hc.trace, hc.handlers]⟩

/-- Spilling: when it fails the rollback reads the mapping the failure left. -/
theorem spill_end {s : TxState} {P : List Event} {k : TxState → Ret (Option Err)} (ho : s.tx.db)
    (hk : CommitEnd env { s.emit .spill with
        tx.pages := env.spill.pages
        tx.meta.pgid := env.spill.pgid
        tx.root := env.spill.root } P
      (k { s.emit .spill with
        tx.pages := env.spill.pages
        tx.meta.pgid := env.spill.pgid
        tx.root := env.spill.root })) :
    CommitEnd env s (.spill :: P) (orRollback (s.spill env) k) := by
  unfold TxState.spill TxState.call
  cases he : env.io s.trace .spill with
  | none => exact hk.prepend (δ := [_]) ⟨rfl, rfl, rfl, rfl, rfl, rfl⟩ rfl ⟨fun _ => he, trivial⟩
  | some e =>
    refine .fail [] .spill P e (s.db.data && !env.unmapped) _ rfl trivial rfl (by simpa using he)
      (.inr rfl) ?_
    have hf : Frame { s with db.data := s.db.data && !env.unmapped }
        { s.emit .spill with db.data := s.db.data && !env.unmapped } := ⟨rfl, rfl, rfl, rfl, rfl, rfl⟩
    simpa [rollbackEvents_of_frame hf] using Closed.of_frame hf rfl (rollback_closed (hf.db.trans ho))

theorem write_ok {K : Consts} {s t : TxState} (h : Tx.write K env s = (none, t)) :
    t = { s with
      tx.pages := .empty
      trace := s.trace ++ writeEvents K s ++ syncEvents K s.db ++ poolPuts (dirtyPages s) } := by
  rcases write_cases K env s with ⟨r, -, -, hw⟩ | ⟨W, f, R, e, -, -, -, hw⟩ <;> rw [hw] at h
  · obtain ⟨rfl, rfl⟩ := Prod.mk.inj h
    simp
  · simp at h

theorem commitFinishing_end (K : Consts) {s : TxState} (ho : s.tx.db) :
    CommitEnd env s (.writeMeta s.tx.meta (toInt64 (toInt64 (metaPgid s.tx.meta) * s.db.pageSize)) ::
      syncEvents K s.db ++ []) (Tx.commitFinishing K env s) :=
  orRollback_end ho (Step.writeMeta K s) fun _ _ hf => done_end (hf.db.trans ho)

theorem commitWriting_end (K : Consts) {s : TxState} (ho : s.tx.db) :
    CommitEnd env s ((writeEvents K s ++ (syncEvents K s.db ++ poolPuts (dirtyPages s))) ++
      (checkEvents s.db ++ (.writeMeta s.tx.meta (toInt64 (toInt64 (metaPgid s.tx.meta) *
        s.db.pageSize)) :: syncEvents K s.db ++ []))) (Tx.commitWriting K env s) := by
  refine orRollback_end ho (Step.write K s) fun t ht _ => ?_
  obtain rfl := write_ok ht
  refine check_end _ _ fun t htx hdb _ => ?_
  have h : CommitEnd env t _ (Tx.commitFinishing K env t) := commitFinishing_end K (htx ▸ ho)
  rwa [htx, hdb] at h

end Ends

theorem commitPlan_eq (K : Consts) (env : Env) (s : TxState) : commitPlan K env s =
    [.rebalance] ++ (.spill :: (.freelistWrite (freelistPgid K s.tx.meta.flid s.db.pageSize) ::
      (growEvents env s ++ ((commitWrites K env s ++ (syncEvents K s.db ++
        poolPuts (dirtyPages { s with tx.pages := commitPages K env s }))) ++
      (checkEvents s.db ++ (metaEvents K env s ++ [])))))) := by
  simp [commitPlan, commitPrefix]

/-- A commit of an open, unmanaged writer makes a prefix of the planned calls: it fails at one and
rolls back, or panics, or makes them all, closes and runs the handlers. -/
theorem commit_end (K : Consts) (env : Env) (s : TxState) (ho : s.tx.db) (hw : s.tx.writable)
    (hm : s.tx.managed = false) : CommitEnd env s (commitPlan K env s) (Tx.Commit K env s) := by
  rw [commitPlan_eq]
  unfold Tx.Commit
  rw [if_neg (by simp [hm]), if_neg (by simp [ho]), if_neg (by simp [hw])]
  refine CommitEnd.prepend ?_ (Frame.emit s .rebalance) rfl (allOk_quiet (by simp [Event.fallible]))
  refine spill_end ho ?_
  refine CommitEnd.of_frame (commitFreelist_end K ?_ ?_ ?_) ?_ ?_
  · exact ho
  · rfl
  rotate_left
  · exact ⟨rfl, rfl, rfl, rfl, rfl, rfl⟩
  · rfl
  refine orRollback_end ho (Step.grow _ _ _) fun t ht _ => ?_
  split at ht <;> obtain rfl := (Prod.mk.inj ht).2.symm <;> exact commitWriting_end K ho

end Bbolt
