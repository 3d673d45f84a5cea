/-
The transaction state of `tx.go` and what its methods do to the world: a `Tx`, the fields of
its `DB` that it reads and writes, and the trace of calls it has made on collaborators (disk
writes, syncs, the freelist, the writer lock, commit handlers). Collaborators are given by an
`Env`: the outcome of every fallible call as a function of the calls made before it, and what
each successful call returns. Go panics are kept apart from returned errors, with the state
they leave behind. This module has `init`, `close`, the two rollbacks, and the shapes of a run
of calls: all succeed, or all succeed up to one that fails and nothing after it can fail.
-/
import Bbolt.Page.Basic

namespace Bbolt

/-! ## Errors, meta and calls -/

/-- The errors the transaction code returns: its own, and `io` for those its collaborators return. -/
inductive Err where
  | ErrTxClosed
  | ErrTxNotWritable
  | ErrFreePagesNotLoaded
  | io (code : Nat)
  deriving DecidableEq, Repr

/-- `meta`: the fields the transaction code reads and writes; `root` is `meta.root.root`, the root
bucket's root page, and `pgid` the high water mark. -/
structure Meta where
  root : Nat
  pgid : Nat
  txid : Nat
  flid : Nat
  deriving DecidableEq, Repr

/-- A call the transaction code makes on something outside the transaction. `writeAt` is
`db.ops.writeAt` for a chunk of a dirty page and `writeMeta` for the meta page `meta.write` builds
from `m`; `pagePoolPut` gives a zeroed single-page buffer back to `db.pagePool`; `unlock` is
`db.rwlock.Unlock()`; `handler` runs a commit handler. -/
inductive Event where
  | rebalance
  | spill
  | freelistWrite (id : Nat)
  | grow (sz : Int)
  | writeAt (buf : List UInt8) (offset : Int)
  | writeMeta (m : Meta) (offset : Int)
  | fdatasync
  | check
  | pagePoolPut (id : Nat)
  | freelistRollback (txid : Nat)
  | freelistReload
  | unlock
  | removeTx
  | handler (fn : Nat)
  deriving DecidableEq, Repr

namespace Event

/-- The calls that can return an error. -/
def fallible : Event → Bool
  | spill | freelistWrite _ | grow _ | writeAt _ _ | writeMeta _ _ | fdatasync => true
  | _ => false

def isWrite : Event → Bool
  | writeAt _ _ | writeMeta _ _ => true
  | _ => false

def isMeta : Event → Bool
  | writeMeta _ _ => true
  | _ => false

end Event

/-! ## The page cache, the transaction and its database -/

/-- `map[pgid]*page`; `entries` lists it in the unspecified order `range` visits it in, and `set`
and `find?` are `pages[k] = p` and `pages[k]`. -/
structure PageCache where
  entries : List (Nat × Page)
  nodup : (entries.map Prod.fst).Nodup

def PageCache.empty : PageCache := ⟨[], List.nodup_nil⟩

def PageCache.set (c : PageCache) (k : Nat) (p : Page) : PageCache :=
  ⟨c.entries.filter (fun e => e.1 ≠ k) ++ [(k, p)], by
    rw [List.map_append, List.nodup_append]
    refine ⟨(c.nodup.sublist ((List.filter_sublist _).map _)), by simp, ?_⟩
    simp [List.Disjoint]⟩

def PageCache.find? (c : PageCache) (k : Nat) : Option Page :=
  (c.entries.find? fun e => e.1 = k).map Prod.snd

@[simp] theorem PageCache.find?_set_self (c : PageCache) (k : Nat) (p : Page) :
    (c.set k p).find? k = some p := by
  simp [PageCache.find?, PageCache.set, List.find?_append, List.find?_eq_none]

theorem PageCache.set_keyed {c : PageCache} {k : Nat} {p : Page}
    (hc : ∀ e ∈ c.entries, e.2.id = e.1) (hp : p.id = k) : ∀ e ∈ (c.set k p).entries, e.2.id = e.1 := by
  intro e he
  simp only [PageCache.set, List.mem_append, List.mem_filter, List.mem_singleton] at he
  rcases he with ⟨he, -⟩ | rfl
  · exact hc e he
  · exact hp

theorem PageCache.find?_set_ne (c : PageCache) (p : Page) {k k' : Nat} (h : k' ≠ k) :
    (c.set k p).find? k' = c.find? k' := by
  have hpred : (fun e : Nat × Page => !decide (e.1 = k) && decide (e.1 = k')) =
      fun e => decide (e.1 = k') := funext fun e => by by_cases he : e.1 = k' <;> simp [he, h]
  simp [PageCache.find?, PageCache.set, List.find?_append, List.find?_filter, hpred, Ne.symm h]

/-- `Tx`: `db` stands for `tx.db != nil` (the transaction is open), `root` for the root
bucket's root page. -/
structure Tx where
  writable : Bool
  managed : Bool
  db : Bool
  meta : Meta
  root : Nat
  pages : PageCache
  commitHandlers : List Nat

/-- The fields of `DB` the transaction code reads and writes. `pageSize` is never zero: `Open`
takes it from the options or the operating system. `data` is `db.data != nil` (the file is
mapped), `freelist` is `db.freelist != nil` (the free pages are loaded), `freed` is
`db.freelist.freed` and `page` is `db.page`, the mapped page at an id. -/
structure DB where
  pageSize : Nat
  pageSize_pos : 0 < pageSize
  NoSync : Bool
  StrictMode : Bool
  data : Bool
  rwtx : Bool
  freelist : Bool
  freed : Nat → Bool
  page : Nat → Page

/-- A transaction, its database and every call made so far. -/
structure TxState where
  tx : Tx
  db : DB
  trace : List Event

/-- The constants the code reads from outside `tx.go` and `page.go`. Every platform's
`maxAllocSize` is at least 2, so `write` never writes an empty chunk of a nonempty page; and
`freelistRegionSize` is compared as an `int`, so it is below `2^63`. -/
structure Consts where
  maxAllocSize : Nat
  two_le : 2 ≤ maxAllocSize
  IgnoreNoSync : Bool
  freelistRegionSize : Nat
  region_lt : freelistRegionSize < 2 ^ 63

/-- What `tx.root.spill()` leaves when it succeeds: the dirty pages, `tx.meta.pgid` after the pages
it allocated, and `tx.root.root`. -/
structure SpillOut where
  pages : PageCache
  pgid : Nat
  root : Nat

/-- The collaborators during one method call: the outcome of every fallible call given the calls
made before it (`io`), what a successful spill leaves, `db.freelist.size()`, the page
`db.freelist.write(p)` fills (only its flags, count and bytes are taken), the errors `tx.Check()`
reports, and whether a failed spill unmapped the file: `db.allocate` remaps it as the high water
mark grows, and a failed `mmap` resets `db.data`. -/
structure Env where
  io : List Event → Event → Option Err
  spill : SpillOut
  freelistSize : Nat
  freelistWrite : Page → Page
  check : List String
  unmapped : Bool

/-- How a method ends: it returns, or it panics; either way with the state it leaves. -/
inductive Ret (α : Type) where
  | ok (a : α) (s : TxState)
  | panic (msg : String) (s : TxState)

def Ret.state {α : Type} : Ret α → TxState
  | .ok _ s => s
  | .panic _ s => s

/-! ## Making calls -/

/-- `if err := f(); err != nil { return err }`: go on with `k` only when `r` returned no error. -/
def andThen (r : Option Err × TxState) (k : TxState → Option Err × TxState) : Option Err × TxState :=
  match r with
  | (some e, s) => (some e, s)
  | (none, s) => k s

@[simp] theorem andThen_none (s : TxState) (k : TxState → Option Err × TxState) :
    andThen (none, s) k = k s := rfl

@[simp] theorem andThen_some (e : Err) (s : TxState) (k : TxState → Option Err × TxState) :
    andThen (some e, s) k = (some e, s) := rfl

namespace TxState

def emit (s : TxState) (ev : Event) : TxState := { s with trace := s.trace ++ [ev] }

/-- Make a fallible call: record it and return its outcome. -/
def call (env : Env) (s : TxState) (ev : Event) : Option Err × TxState := (env.io s.trace ev, s.emit ev)

/-- Make the calls `evs` in order and return the first error
(`for ... { if err := ...; err != nil { return err } }`). -/
def issue (env : Env) : TxState → List Event → Option Err × TxState
  | s, [] => (none, s)
  | s, ev :: evs => andThen (s.call env ev) fun s => issue env s evs

@[simp] theorem emit_trace (s : TxState) (ev : Event) : (s.emit ev).trace = s.trace ++ [ev] := rfl
@[simp] theorem emit_tx (s : TxState) (ev : Event) : (s.emit ev).tx = s.tx := rfl
@[simp] theorem emit_db (s : TxState) (ev : Event) : (s.emit ev).db = s.db := rfl

end TxState

/-! ## Runs of calls -/

section Runs

variable (env : Env)

/-- Every fallible call of `evs`, made after the calls `h`, succeeds. -/
def AllOk : List Event → List Event → Prop
  | _, [] => True
  | h, ev :: evs => (ev.fallible → env.io h ev = none) ∧ AllOk (h ++ [ev]) evs

/-- The calls `evs`, made after `h`, succeed up to a call that fails with `e`, and none after it
can fail. -/
def Fails (h evs : List Event) (e : Err) : Prop :=
  ∃ W f R, evs = W ++ f :: R ∧ AllOk env h W ∧ f.fallible ∧ env.io (h ++ W) f = some e ∧
    ∀ x ∈ R, x.fallible = false

/-- What a step that returns `err` did with its calls `evs`. -/
def Outcome (h evs : List Event) : Option Err → Prop
  | none => AllOk env h evs
  | some e => Fails env h evs e

variable {env}

theorem allOk_append : ∀ {h a b : List Event},
    AllOk env h (a ++ b) ↔ AllOk env h a ∧ AllOk env (h ++ a) b
  | h, [], b => by simp [AllOk]
  | h, x :: a, b => by
    show (_ ∧ AllOk env (h ++ [x]) (a ++ b)) ↔ (_ ∧ AllOk env (h ++ [x]) a) ∧ _
    rw [allOk_append, List.append_assoc, List.singleton_append, and_assoc]

theorem allOk_quiet : ∀ {h evs : List Event}, (∀ x ∈ evs, x.fallible = false) → AllOk env h evs
  | _, [], _ => trivial
  | _, x :: evs, hq => ⟨fun hx => by simp [hq x (by simp)] at hx,
      allOk_quiet fun y hy => hq y (List.mem_cons_of_mem _ hy)⟩

theorem AllOk.no_fail : ∀ {h pre post : List Event} {ev : Event},
    AllOk env h (pre ++ ev :: post) → ev.fallible → env.io (h ++ pre) ev = none
  | h, [], post, ev, hall, hf => by simpa using hall.1 hf
  | h, x :: pre, post, ev, hall, hf => by
    simpa using AllOk.no_fail (h := h ++ [x]) hall.2 hf

theorem fail_at_unique {h W R pre post : List Event} {f ev : Event} (hW : AllOk env h W)
    (hR : ∀ x ∈ R, x.fallible = false) (hd : W ++ f :: R = pre ++ ev :: post)
    (hf : ev.fallible) (he : env.io (h ++ pre) ev ≠ none) : pre = W ∧ ev = f ∧ post = R := by
  rcases List.append_eq_append_iff.1 hd with ⟨_ | ⟨y, a'⟩, rfl, hb⟩ | ⟨_ | ⟨y, c'⟩, rfl, hb⟩
  · simp only [List.nil_append, List.cons.injEq] at hb
    exact ⟨by simp, hb.1.symm, hb.2.symm⟩
  · simp only [List.cons_append, List.cons.injEq] at hb
    have := hR ev (by rw [hb.2]; simp)
    rw [this] at hf; cases hf
  · simp only [List.nil_append, List.cons.injEq] at hb
    exact ⟨by simp, hb.1, hb.2⟩
  · simp only [List.cons_append, List.cons.injEq] at hb
    obtain ⟨rfl, -⟩ := hb
    exact absurd (AllOk.no_fail hW hf) he

theorem allOk_or_first_fail : ∀ (h evs : List Event), AllOk env h evs ∨
    ∃ W f R e, evs = W ++ f :: R ∧ AllOk env h W ∧ f.fallible ∧ env.io (h ++ W) f = some e
  | _, [] => .inl trivial
  | h, x :: evs => by
    by_cases hx : x.fallible ∧ env.io h x ≠ none
    · obtain ⟨e, he⟩ := Option.ne_none_iff_exists'.1 hx.2
      exact .inr ⟨[], x, evs, e, rfl, trivial, hx.1, by simpa using he⟩
    · have hok : x.fallible → env.io h x = none := fun hf => by simpa [hf] using hx
      rcases allOk_or_first_fail (h ++ [x]) evs with hall | ⟨W, f, R, e, rfl, hW, hf, he⟩
      · exact .inl ⟨hok, hall⟩
      · exact .inr ⟨x :: W, f, R, e, rfl, ⟨hok, hW⟩, hf, by simpa using he⟩

theorem issue_allOk : ∀ {s : TxState} {evs : List Event}, (∀ x ∈ evs, x.fallible) →
    AllOk env s.trace evs → s.issue env evs = (none, { s with trace := s.trace ++ evs })
  | s, [], _, _ => by simp [TxState.issue]
  | s, x :: evs, hf, ⟨hx, hall⟩ => by
    have h := issue_allOk (s := s.emit x) (fun y hy => hf y (List.mem_cons_of_mem x hy))
      (by simpa using hall)
    simp only [TxState.issue, TxState.call, hx (hf x (by simp)), andThen_none, h]
    simp [TxState.emit]

theorem issue_fails : ∀ {s : TxState} {W : List Event} {f : Event} {R : List Event} {e : Err},
    (∀ x ∈ W, x.fallible) → AllOk env s.trace W → env.io (s.trace ++ W) f = some e →
    s.issue env (W ++ f :: R) = (some e, { s with trace := s.trace ++ W ++ [f] })
  | s, [], f, R, e, _, _, he => by simp_all [TxState.issue, TxState.call, TxState.emit]
  | s, x :: W, f, R, e, hf, ⟨hx, hW⟩, he => by
    have h := issue_fails (s := s.emit x) (R := R) (fun y hy => hf y (List.mem_cons_of_mem x hy))
      (by simpa using hW) (by simpa using he)
    simp only [List.cons_append, TxState.issue, TxState.call, hx (hf x (by simp)), andThen_none]
    exact h.trans (by simp [TxState.emit])

/-- `issue` makes every call when all succeed, else the calls up to the first failure. -/
theorem issue_spec (s : TxState) (evs : List Event) (hf : ∀ x ∈ evs, x.fallible) :
    (AllOk env s.trace evs ∧ s.issue env evs = (none, { s with trace := s.trace ++ evs })) ∨
    ∃ W f R e, evs = W ++ f :: R ∧ AllOk env s.trace W ∧ env.io (s.trace ++ W) f = some e ∧
      s.issue env evs = (some e, { s with trace := s.trace ++ W ++ [f] }) := by
  rcases allOk_or_first_fail s.trace evs with hall | ⟨W, f, R, e, rfl, hW, -, he⟩
  · exact .inl ⟨hall, issue_allOk hf hall⟩
  · exact .inr ⟨W, f, R, e, rfl, hW, he, issue_fails (fun x hx => hf x (by simp [hx])) hW he⟩

theorem call_outcome {ev : Event} (hf : ev.fallible) (s : TxState) :
    Outcome env s.trace [ev] (s.call env ev).1 := by
  show Outcome env s.trace [ev] (env.io s.trace ev)
  cases h : env.io s.trace ev with
  | none => exact ⟨fun _ => h, trivial⟩
  | some e => exact ⟨[], ev, [], rfl, trivial, hf, by simpa using h, by simp⟩

end Runs

theorem issue_keeps (env : Env) : ∀ (s : TxState) (evs : List Event),
    (s.issue env evs).2.tx = s.tx ∧ (s.issue env evs).2.db = s.db
  | s, [] => ⟨rfl, rfl⟩
  | s, ev :: evs => by
    cases h : env.io s.trace ev with
    | some e => simp [TxState.issue, TxState.call, h]
    | none => simpa [TxState.issue, TxState.call, h] using issue_keeps env (s.emit ev) evs

/-! ## `init`, `close` and the rollbacks -/

/-- `init(db)`: the transaction copies `m = db.meta()` by value and opens; a writer gets an
empty page cache and the next `txid` and `flid` (both `uint64`). -/
def Tx.init (writable managed : Bool) (m : Meta) : Tx :=
  { writable, managed, db := true, root := m.root, pages := .empty, commitHandlers := [],
    meta := if writable then { m with txid := (m.txid + 1) % 2 ^ 64, flid := (m.flid + 1) % 2 ^ 64 }
      else m }

def closeEvents (writable : Bool) : List Event := if writable then [.unlock] else [.removeTx]

/-- `close()`: a writer clears `db.rwtx` and releases the writer lock, a reader deregisters;
then the transaction drops its references. The statistics it hands to the database are not
modelled. -/
def Tx.close (s : TxState) : TxState :=
  if !s.tx.db then s
  else
    let s := if s.tx.writable then { s with db.rwtx := false }.emit .unlock else s.emit .removeTx
    { s with tx.db := false, tx.pages := .empty }

/-- The freelist calls that undo a writer's changes: `freelist.rollback(txid)`, then on a
physical rollback a reload from the freelist page when the file is mapped. -/
def undoEvents (s : TxState) (physical : Bool) : List Event :=
  if s.tx.writable then
    .freelistRollback s.tx.meta.txid :: (if physical && s.db.data then [.freelistReload] else [])
  else []

/-- `rollback()`, after a failed commit: the free pages are reloaded from disk, since memory may
no longer be trusted. -/
def Tx.rollback (s : TxState) : TxState :=
  if !s.tx.db then s
  else
    let s := if s.tx.writable then
        let s := s.emit (.freelistRollback s.tx.meta.txid)
        if s.db.data then s.emit .freelistReload else s
      else s
    Tx.close s

/-- `nonPhysicalRollback()`, for `Rollback`: the freelist is reverted in memory only. -/
def Tx.nonPhysicalRollback (s : TxState) : TxState :=
  if !s.tx.db then s
  else Tx.close (if s.tx.writable then s.emit (.freelistRollback s.tx.meta.txid) else s)

theorem close_open {s : TxState} (h : s.tx.db) :
    Tx.close s = ⟨{ s.tx with db := false, pages := .empty },
      { s.db with rwtx := !s.tx.writable && s.db.rwtx }, s.trace ++ closeEvents s.tx.writable⟩ := by
  unfold Tx.close closeEvents
  cases hw : s.tx.writable <;> simp [h, hw, TxState.emit]

theorem rollback_open {s : TxState} (h : s.tx.db) (physical : Bool) :
    (if physical then Tx.rollback s else Tx.nonPhysicalRollback s) =
      Tx.close { s with trace := s.trace ++ undoEvents s physical } := by
  unfold Tx.rollback Tx.nonPhysicalRollback undoEvents
  cases physical <;> cases hw : s.tx.writable <;> cases hd : s.db.data <;>
    simp [h, hw, hd, TxState.emit]

/-! ## A sample writer

Inputs the results below are instantiated at: 4 KiB pages written in chunks of at most 4096
bytes, a freelist region of 16 pages, and a writer whose cache holds one two-page leaf at id 3.
-/

def sampleConsts : Consts := ⟨4097, by decide, false, 65536, by decide⟩

def sampleDB : DB := ⟨4096, by decide, false, false, true, true, true, fun _ => false,
  fun id => ⟨id, leafPageFlag, 0, 0, fun _ => 0⟩⟩

def samplePage : Page := ⟨3, leafPageFlag, 0, 1, fun _ => 0⟩

/-- Every call succeeds; spilling leaves `samplePage` dirty. -/
def sampleEnv : Env := ⟨fun _ _ => none, ⟨PageCache.empty.set 3 samplePage, 5, 3⟩, 0, id, [], false⟩

def sampleWriter : TxState :=
  ⟨{ Tx.init true false ⟨2, 4, 0, 0⟩ with pages := PageCache.empty.set 3 samplePage }, sampleDB, []⟩

end Bbolt
