/-
`TxStats` of `tx.go` and the transaction methods that count and size: twelve `int64` counters
(the two durations are `int64` nanoseconds), each with an atomic getter and an atomic adder, and
`add` and `Sub` over all of them; `allocate`, which caches a new page and counts it; `ID` and
`Size`. Counters wrap as `atomic.AddInt64` does, so they are `BitVec 64` here. The getters and
adders are one definition each over the counter they touch, and `add` and `Sub` work counter by
counter. Along every run of `allocate` calls the cache stays keyed by page id and the byte counter
stays the page counter times the page size.
-/
import Bbolt.Tx.Walk
import Bbolt.Tx.Write

namespace Bbolt

/-! ## Counters -/

/-- The fields of `TxStats`, in declaration order. -/
inductive Counter where
  | PageCount | PageAlloc | CursorCount | NodeCount | NodeDeref | Rebalance | RebalanceTime
  | Split | Spill | SpillTime | Write | WriteTime
  deriving DecidableEq, Repr

structure TxStats where
  PageCount : BitVec 64 := 0
  PageAlloc : BitVec 64 := 0
  CursorCount : BitVec 64 := 0
  NodeCount : BitVec 64 := 0
  NodeDeref : BitVec 64 := 0
  Rebalance : BitVec 64 := 0
  RebalanceTime : BitVec 64 := 0
  Split : BitVec 64 := 0
  Spill : BitVec 64 := 0
  SpillTime : BitVec 64 := 0
  Write : BitVec 64 := 0
  WriteTime : BitVec 64 := 0
  deriving DecidableEq, Repr

def TxStats.get (s : TxStats) : Counter → BitVec 64
  | .PageCount => s.PageCount
  | .PageAlloc => s.PageAlloc
  | .CursorCount => s.CursorCount
  | .NodeCount => s.NodeCount
  | .NodeDeref => s.NodeDeref
  | .Rebalance => s.Rebalance
  | .RebalanceTime => s.RebalanceTime
  | .Split => s.Split
  | .Spill => s.Spill
  | .SpillTime => s.SpillTime
  | .Write => s.Write
  | .WriteTime => s.WriteTime

def TxStats.set (s : TxStats) : Counter → BitVec 64 → TxStats
  | .PageCount, v => { s with PageCount := v }
  | .PageAlloc, v => { s with PageAlloc := v }
  | .CursorCount, v => { s with CursorCount := v }
  | .NodeCount, v => { s with NodeCount := v }
  | .NodeDeref, v => { s with NodeDeref := v }
  | .Rebalance, v => { s with Rebalance := v }
  | .RebalanceTime, v => { s with RebalanceTime := v }
  | .Split, v => { s with Split := v }
  | .Spill, v => { s with Spill := v }
  | .SpillTime, v => { s with SpillTime := v }
  | .Write, v => { s with Write := v }
  | .WriteTime, v => { s with WriteTime := v }

@[simp] theorem TxStats.get_set (s : TxStats) (c d : Counter) (v : BitVec 64) :
    (s.set c v).get d = if d = c then v else s.get d := by
  cases c <;> cases d <;> rfl

/-! ## Getters and adders -/

/-- `Get<c>()`: `atomic.LoadInt64(&s.<c>)`. -/
def TxStats.load (s : TxStats) (c : Counter) : BitVec 64 := s.get c

/-- `Inc<c>(delta)`: `atomic.AddInt64(&s.<c>, delta)`, the new value and the stats holding it. -/
def TxStats.inc (s : TxStats) (c : Counter) (delta : BitVec 64) : BitVec 64 × TxStats :=
  (s.get c + delta, s.set c (s.get c + delta))

theorem TxStats.inc_get (s : TxStats) (c d : Counter) (delta : BitVec 64) :
    (s.inc c delta).1 = s.get c + delta ∧
      (s.inc c delta).2.get d = if d = c then s.get d + delta else s.get d := by
  refine ⟨rfl, ?_⟩
  simp only [TxStats.inc, TxStats.get_set]
  split <;> simp_all

def TxStats.GetPageCount (s : TxStats) : BitVec 64 := s.load .PageCount
def TxStats.IncPageCount (s : TxStats) (delta : BitVec 64) : BitVec 64 × TxStats := s.inc .PageCount delta
def TxStats.GetPageAlloc (s : TxStats) : BitVec 64 := s.load .PageAlloc
def TxStats.IncPageAlloc (s : TxStats) (delta : BitVec 64) : BitVec 64 × TxStats := s.inc .PageAlloc delta
def TxStats.GetCursorCount (s : TxStats) : BitVec 64 := s.load .CursorCount
def TxStats.IncCursorCount (s : TxStats) (delta : BitVec 64) : BitVec 64 × TxStats :=
  s.inc .CursorCount delta
def TxStats.GetNodeCount (s : TxStats) : BitVec 64 := s.load .NodeCount
def TxStats.IncNodeCount (s : TxStats) (delta : BitVec 64) : BitVec 64 × TxStats := s.inc .NodeCount delta
def TxStats.GetNodeDeref (s : TxStats) : BitVec 64 := s.load .NodeDeref
def TxStats.IncNodeDeref (s : TxStats) (delta : BitVec 64) : BitVec 64 × TxStats := s.inc .NodeDeref delta
def TxStats.GetRebalance (s : TxStats) : BitVec 64 := s.load .Rebalance
def TxStats.IncRebalance (s : TxStats) (delta : BitVec 64) : BitVec 64 × TxStats := s.inc .Rebalance delta
def TxStats.GetRebalanceTime (s : TxStats) : BitVec 64 := s.load .RebalanceTime
def TxStats.IncRebalanceTime (s : TxStats) (delta : BitVec 64) : BitVec 64 × TxStats :=
  s.inc .RebalanceTime delta
def TxStats.GetSplit (s : TxStats) : BitVec 64 := s.load .Split
def TxStats.IncSplit (s : TxStats) (delta : BitVec 64) : BitVec 64 × TxStats := s.inc .Split delta
def TxStats.GetSpill (s : TxStats) : BitVec 64 := s.load .Spill
def TxStats.IncSpill (s : TxStats) (delta : BitVec 64) : BitVec 64 × TxStats := s.inc .Spill delta
def TxStats.GetSpillTime (s : TxStats) : BitVec 64 := s.load .SpillTime
def TxStats.IncSpillTime (s : TxStats) (delta : BitVec 64) : BitVec 64 × TxStats := s.inc .SpillTime delta
def TxStats.GetWrite (s : TxStats) : BitVec 64 := s.load .Write
def TxStats.IncWrite (s : TxStats) (delta : BitVec 64) : BitVec 64 × TxStats := s.inc .Write delta
def TxStats.GetWriteTime (s : TxStats) : BitVec 64 := s.load .WriteTime
def TxStats.IncWriteTime (s : TxStats) (delta : BitVec 64) : BitVec 64 × TxStats := s.inc .WriteTime delta

/-! ## `add` and `Sub` -/

/-- `add(other)`: each counter's adder applied to `other`'s value, in declaration order. -/
def TxStats.add (s other : TxStats) : TxStats :=
  let s := (s.IncPageCount other.GetPageCount).2
  let s := (s.IncPageAlloc other.GetPageAlloc).2
  let s := (s.IncCursorCount other.GetCursorCount).2
  let s := (s.IncNodeCount other.GetNodeCount).2
  let s := (s.IncNodeDeref other.GetNodeDeref).2
  let s := (s.IncRebalance other.GetRebalance).2
  let s := (s.IncRebalanceTime other.GetRebalanceTime).2
  let s := (s.IncSplit other.GetSplit).2
  let s := (s.IncSpill other.GetSpill).2
  let s := (s.IncSpillTime other.GetSpillTime).2
  let s := (s.IncWrite other.GetWrite).2
  (s.IncWriteTime other.GetWriteTime).2

/-- `Sub(other)`: the counters' differences. -/
def TxStats.Sub (s other : TxStats) : TxStats :=
  { PageCount := s.GetPageCount - other.GetPageCount
    PageAlloc := s.GetPageAlloc - other.GetPageAlloc
    CursorCount := s.GetCursorCount - other.GetCursorCount
    NodeCount := s.GetNodeCount - other.GetNodeCount
    NodeDeref := s.GetNodeDeref - other.GetNodeDeref
    Rebalance := s.GetRebalance - other.GetRebalance
    RebalanceTime := s.GetRebalanceTime - other.GetRebalanceTime
    Split := s.GetSplit - other.GetSplit
    Spill := s.GetSpill - other.GetSpill
    SpillTime := s.GetSpillTime - other.GetSpillTime
    Write := s.GetWrite - other.GetWrite
    WriteTime := s.GetWriteTime - other.GetWriteTime }

/-! ## `allocate` -/

/-- `allocate(count)`: `db.allocate(txid, count)` (given as `alloc`), then the new page goes into
the cache and `tx.stats`, kept beside the transaction here, counts `count` pages of
`count * pageSize` bytes (a Go `int` product, wrapping). Inside `Tx` the method `Page` shadows
the page type, hence its full name. -/
def Tx.allocate (alloc : Nat → Int → Except Err Bbolt.Page) (db : DB) (count : Int) (tx : Tx)
    (stats : TxStats) : Except Err (Bbolt.Page × Tx × TxStats) :=
  match alloc tx.meta.txid count with
  | .error e => .error e
  | .ok p =>
    let tx := { tx with pages := tx.pages.set p.id p }
    let stats := (stats.IncPageCount (BitVec.ofInt 64 count)).2
    let stats := (stats.IncPageAlloc (BitVec.ofInt 64 (count * db.pageSize))).2
    .ok (p, tx, stats)

section Allocate

variable {alloc : Nat → Int → Except Err Page} {db : DB} {count : Int} {tx tx' : Tx}
  {stats stats' : TxStats} {p : Page}

theorem allocate_spec (h : tx.allocate alloc db count stats = .ok (p, tx', stats')) :
    alloc tx.meta.txid count = .ok p ∧ tx' = { tx with pages := tx.pages.set p.id p } ∧
      stats' = ((stats.IncPageCount (BitVec.ofInt 64 count)).2.IncPageAlloc
        (BitVec.ofInt 64 (count * db.pageSize))).2 := by
  unfold Tx.allocate at h
  split at h <;> rename_i q hq
  · cases h
  · cases h; exact ⟨hq, rfl, rfl⟩

/-- The counters after a successful `allocate`: `count` more pages of `count * pageSize` more
bytes, and no other counter moves. -/
theorem allocate_get (h : tx.allocate alloc db count stats = .ok (p, tx', stats')) (c : Counter) :
    stats'.get c = stats.get c +
      (if c = .PageCount then BitVec.ofInt 64 count
       else if c = .PageAlloc then BitVec.ofInt 64 (count * db.pageSize) else 0) := by
  obtain ⟨-, -, rfl⟩ := allocate_spec h
  simp only [TxStats.IncPageAlloc, TxStats.IncPageCount, (TxStats.inc_get _ _ _ _).2]
  cases c <;> simp

/-- `allocate` keeps every cached page at its own id, as `write` needs. -/
theorem allocate_keyed (h : tx.allocate alloc db count stats = .ok (p, tx', stats'))
    (hc : ∀ e ∈ tx.pages.entries, e.2.id = e.1) : ∀ e ∈ tx'.pages.entries, e.2.id = e.1 := by
  obtain ⟨-, rfl, -⟩ := allocate_spec h
  exact PageCache.set_keyed hc rfl

/-- `db.allocate` handing out its block at page 7. -/
def sampleAlloc (_ : Nat) (count : Int) : Except Err Page :=
  .ok ⟨7, leafPageFlag, 0, count.toNat - 1, fun _ => 0⟩

/-- The writers and statistics that successful `allocate` calls reach from `init`; the
statistics start at zero, as in a new `Tx`. -/
inductive Allocated (alloc : Nat → Int → Except Err Page) (db : DB) : Tx → TxStats → Prop
  | init (managed : Bool) (m : Meta) : Allocated alloc db (Tx.init true managed m) {}
  | allocate {tx tx' : Tx} {stats stats' : TxStats} {count : Int} {p : Page} :
      Allocated alloc db tx stats → tx.allocate alloc db count stats = .ok (p, tx', stats') →
      Allocated alloc db tx' stats'

/-- Along every run of `allocate` calls from `init`, the cache keeps each page at its own id, as
`write` needs; the byte counter stays the page counter times the page size, modulo `2^64`; and
no other counter moves. -/
theorem allocated_inv (h : Allocated alloc db tx stats) :
    (∀ e ∈ tx.pages.entries, e.2.id = e.1) ∧
      stats.GetPageAlloc = stats.GetPageCount * BitVec.ofNat 64 db.pageSize ∧
      ∀ c, c ≠ .PageCount → c ≠ .PageAlloc → stats.get c = 0 := by
  induction h with
  | init => exact ⟨by simp [Tx.init, PageCache.empty], (zero_mul _).symm, fun c _ _ => by cases c <;> rfl⟩
  | allocate _ ha ih =>
    obtain ⟨hkey, halloc, hrest⟩ := ih
    refine ⟨allocate_keyed ha hkey, ?_, fun c h1 h2 => ?_⟩
    · simp only [TxStats.GetPageAlloc, TxStats.GetPageCount, TxStats.load, allocate_get ha,
        if_pos, reduceCtorEq, if_false] at halloc ⊢
      rw [halloc, BitVec.ofInt_mul, BitVec.ofInt_natCast]
      ring
    · rw [allocate_get ha, hrest c h1 h2, if_neg h1, if_neg h2]
      rfl

theorem allocated_inv_sample :
    Allocated sampleAlloc sampleDB { Tx.init true false ⟨2, 4, 0, 0⟩ with
      pages := PageCache.empty.set 7 ⟨7, leafPageFlag, 0, 1, fun _ => 0⟩ }
      { PageCount := 2, PageAlloc := 8192 } ∧
    (∀ e ∈ (PageCache.empty.set 7 ⟨7, leafPageFlag, 0, 1, fun _ => 0⟩).entries, e.2.id = e.1) ∧
      TxStats.GetPageAlloc { PageCount := 2, PageAlloc := 8192 } =
        TxStats.GetPageCount { PageCount := 2, PageAlloc := 8192 } * BitVec.ofNat 64 sampleDB.pageSize ∧
      ∀ c, c ≠ .PageCount → c ≠ .PageAlloc → TxStats.get { PageCount := 2, PageAlloc := 8192 } c = 0 :=
  have h : Allocated sampleAlloc sampleDB { Tx.init true false ⟨2, 4, 0, 0⟩ with
      pages := PageCache.empty.set 7 ⟨7, leafPageFlag, 0, 1, fun _ => 0⟩ }
      { PageCount := 2, PageAlloc := 8192 } :=
    .allocate (.init false ⟨2, 4, 0, 0⟩)
      (show (Tx.init true false ⟨2, 4, 0, 0⟩).allocate sampleAlloc sampleDB 2 {} = .ok (_, _, _) from rfl)
  ⟨h, allocated_inv h⟩

end Allocate

/-! ## `ID` and `Size` -/

/-- `ID()`: `int(tx.meta.txid)`. -/
def Tx.ID (tx : Tx) : Int := toInt64 tx.meta.txid

/-- `Size()`: `int64(tx.meta.pgid) * int64(tx.db.pageSize)`, wrapping. -/
def Tx.Size (tx : Tx) (db : DB) : Int := toInt64 (toInt64 tx.meta.pgid * db.pageSize)

end Bbolt
