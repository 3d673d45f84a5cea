/-
`commitFreelist` of `tx.go`: the free page ids go into a page-shaped buffer whose id alternates
between two fixed regions after the meta pages, by the parity of `flid`, which `init` bumps for
every writer. Below: the page lands in the region the transaction's own `flid` picks, so never in
the region of the meta it started from, and never past the two regions. Its buffer holds the
freelist only while the page count fits the `uint32` that `overflow` is cut to.
-/
import Bbolt.Tx.Basic

namespace Bbolt

/-! ## The freelist page -/

/-- `pages`: one page for a freelist smaller than a page, else `size / pageSize + 1`. -/
def freelistPages (size ps : Nat) : Nat := if size < ps then 1 else size / ps + 1

/-- `2 + (tx.meta.flid%2)*freelistRegionSize/pgid(tx.db.pageSize)`, in `uint64`. -/
def freelistPgid (K : Consts) (flid ps : Nat) : Nat :=
  (2 + flid % 2 * K.freelistRegionSize % 2 ^ 64 / ps) % 2 ^ 64

/-- `uint32(pages) - 1`. -/
def freelistOverflow (pages : Nat) : Nat := (pages % 2 ^ 32 + 2 ^ 32 - 1) % 2 ^ 32

/-- The page `commitFreelist` registers: the buffer `freelist.write` filled in, with the id and
overflow `commitFreelist` gave it. -/
def freelistPage (env : Env) (id overflow : Nat) : Page :=
  { env.freelistWrite ⟨id, 0, 0, overflow, fun _ => 0⟩ with id, overflow }

@[simp] theorem freelistPage_id (env : Env) (id overflow : Nat) :
    (freelistPage env id overflow).id = id := rfl

@[simp] theorem freelistPage_overflow (env : Env) (id overflow : Nat) :
    (freelistPage env id overflow).overflow = overflow := rfl

/-- `commitFreelist()`: asserts the freelist fits its region less a page, writes it into its page
and registers the page as dirty; a failed write rolls the transaction back. -/
def Tx.commitFreelist (K : Consts) (env : Env) (s : TxState) : Ret (Option Err) :=
  if (env.freelistSize : Int) < K.freelistRegionSize - s.db.pageSize then
    let pages := freelistPages env.freelistSize s.db.pageSize
    let id := freelistPgid K s.tx.meta.flid s.db.pageSize
    match s.call env (.freelistWrite id) with
    | (some e, s) => .ok (some e) (Tx.rollback s)
    | (none, s) =>
      .ok none { s with tx.pages := s.tx.pages.set id (freelistPage env id (freelistOverflow pages)) }
  else .panic "assertion failed: fatal: freelist too large" s

/-- What `commitFreelist` does: it panics on a freelist too large for its region; else it makes
the write, and rolls back on failure or registers the page. -/
theorem commitFreelist_cases (K : Consts) (env : Env) (s : TxState) :
    let id := freelistPgid K s.tx.meta.flid s.db.pageSize
    (¬(env.freelistSize : Int) < K.freelistRegionSize - s.db.pageSize ∧
      Tx.commitFreelist K env s = .panic "assertion failed: fatal: freelist too large" s) ∨
    ((env.freelistSize : Int) < K.freelistRegionSize - s.db.pageSize ∧
      ((∃ e, env.io s.trace (.freelistWrite id) = some e ∧
        Tx.commitFreelist K env s = .ok (some e) (Tx.rollback (s.emit (.freelistWrite id)))) ∨
      (env.io s.trace (.freelistWrite id) = none ∧
        Tx.commitFreelist K env s = .ok none { s.emit (.freelistWrite id) with
          tx.pages := s.tx.pages.set id (freelistPage env id
            (freelistOverflow (freelistPages env.freelistSize s.db.pageSize))) }))) := by
  intro id
  by_cases h : (env.freelistSize : Int) < K.freelistRegionSize - s.db.pageSize
  · refine .inr ⟨h, ?_⟩
    cases he : env.io s.trace (.freelistWrite id) with
    | some e => exact .inl ⟨e, rfl, by simp [Tx.commitFreelist, h, TxState.call, he, id]⟩
    | none => exact .inr ⟨rfl, by simp [Tx.commitFreelist, h, TxState.call, he, id]⟩
  · exact .inl ⟨h, by simp [Tx.commitFreelist, h]⟩

/-! ## Where the page lands -/

section Region

variable (K : Consts) {ps : Nat}

theorem freelistPgid_eq (flid : Nat) :
    freelistPgid K flid ps = 2 + flid % 2 * (K.freelistRegionSize / ps) := by
  have hR := K.region_lt
  have hq : K.freelistRegionSize / ps ≤ K.freelistRegionSize := Nat.div_le_self _ _
  unfold freelistPgid
  rcases Nat.mod_two_eq_zero_or_one flid with h | h <;> rw [h]
  · simp
  · rw [Nat.one_mul, Nat.one_mul, Nat.mod_eq_of_lt (show K.freelistRegionSize < 2 ^ 64 by omega),
      Nat.mod_eq_of_lt (show 2 + K.freelistRegionSize / ps < 2 ^ 64 by omega)]

theorem freelistOverflow_lt {pages : Nat} (h0 : 0 < pages) : freelistOverflow pages < pages := by
  unfold freelistOverflow; omega

theorem freelistOverflow_of_lt {pages : Nat} (h0 : 0 < pages) (h : pages < 2 ^ 32) :
    freelistOverflow pages + 1 = pages := by
  unfold freelistOverflow; omega

theorem freelistPages_pos (size ps : Nat) : 0 < freelistPages size ps := by
  unfold freelistPages; split
  exacts [Nat.one_pos, Nat.succ_pos _]

theorem freelistPages_le (hps : 0 < ps) {size : Nat}
    (h : (size : Int) < K.freelistRegionSize - ps) :
    freelistPages size ps ≤ K.freelistRegionSize / ps := by
  unfold freelistPages
  split
  · exact (Nat.one_le_div_iff hps).2 (by omega)
  · calc size / ps + 1 = (size + ps) / ps := (Nat.add_div_right _ hps).symm
      _ ≤ K.freelistRegionSize / ps := Nat.div_le_div_right (by omega)

theorem lt_freelistPages_mul (hps : 0 < ps) (size : Nat) : size < freelistPages size ps * ps := by
  unfold freelistPages
  split
  · omega
  · rw [Nat.add_mul, Nat.one_mul]; exact Nat.lt_div_mul_add hps

end Region

/-- The freelist page a writer initialised from `m` registers lies in region
`r = (m.flid + 1) % 2` of `Q = freelistRegionSize / pageSize` pages: it starts the region and
its span `[id, id + overflow]` ends inside it, so the span misses region `m.flid % 2` and the
data pages after both regions. Its buffer holds the freelist when the page count fits `uint32`. -/
theorem commitFreelist_region (K : Consts) (env : Env) (s : TxState) (m : Meta) (managed : Bool)
    (hflid : s.tx.meta.flid = (Tx.init true managed m).meta.flid)
    (hsize : (env.freelistSize : Int) < K.freelistRegionSize - s.db.pageSize)
    (hok : env.io s.trace (.freelistWrite (freelistPgid K s.tx.meta.flid s.db.pageSize)) = none) :
    ∃ q : Page, Tx.commitFreelist K env s =
        .ok none { s.emit (.freelistWrite q.id) with tx.pages := s.tx.pages.set q.id q } ∧
      q.id = 2 + (m.flid + 1) % 2 * (K.freelistRegionSize / s.db.pageSize) ∧
      q.id + q.overflow < 2 + ((m.flid + 1) % 2 + 1) * (K.freelistRegionSize / s.db.pageSize) ∧
      (∀ j, q.id ≤ j → j ≤ q.id + q.overflow →
        ¬(2 + m.flid % 2 * (K.freelistRegionSize / s.db.pageSize) ≤ j ∧
          j < 2 + (m.flid % 2 + 1) * (K.freelistRegionSize / s.db.pageSize))) ∧
      q.id + q.overflow < 2 + 2 * (K.freelistRegionSize / s.db.pageSize) ∧
      (freelistPages env.freelistSize s.db.pageSize < 2 ^ 32 →
        env.freelistSize < (q.overflow + 1) * s.db.pageSize) := by
  have hps := s.db.pageSize_pos
  have hr : s.tx.meta.flid % 2 = (m.flid + 1) % 2 := by
    rw [hflid]; simp only [Tx.init, if_true]; omega
  have hQ := freelistPages_le K hps hsize
  have hpos := freelistPages_pos env.freelistSize s.db.pageSize
  have hov := freelistOverflow_lt hpos
  rcases commitFreelist_cases K env s with ⟨h, -⟩ | ⟨-, ⟨e, he, -⟩ | ⟨-, hc⟩⟩
  · exact absurd hsize h
  · simp [hok] at he
  have hid : freelistPgid K s.tx.meta.flid s.db.pageSize =
      2 + (m.flid + 1) % 2 * (K.freelistRegionSize / s.db.pageSize) := by rw [freelistPgid_eq, hr]
  refine ⟨freelistPage env (freelistPgid K s.tx.meta.flid s.db.pageSize)
    (freelistOverflow (freelistPages env.freelistSize s.db.pageSize)), hc, hid, ?_, ?_, ?_, fun h => by
      rw [freelistPage_overflow, freelistOverflow_of_lt hpos h]; exact lt_freelistPages_mul hps _⟩
  all_goals
    simp only [freelistPage_id, freelistPage_overflow, hid]
    generalize K.freelistRegionSize / s.db.pageSize = Q at *
    rcases Nat.mod_two_eq_zero_or_one m.flid with h2 | h2 <;>
      simp only [h2, show (m.flid + 1) % 2 = 1 - m.flid % 2 by omega] <;> omega

/-- A writer begun from a meta whose freelist id is the last `uint64`, so that `init` wraps it to
0, and a freelist of 15 pages, one byte short of what its region allows. -/
def wrappedWriter : TxState := ⟨Tx.init true false ⟨2, 4, 0, 2 ^ 64 - 1⟩, sampleDB, []⟩

def fullFreelist : Env := { sampleEnv with freelistSize := 61439 }

theorem commitFreelist_region_sample :
    wrappedWriter.tx.meta.flid = (Tx.init true false ⟨2, 4, 0, 2 ^ 64 - 1⟩).meta.flid ∧
    (fullFreelist.freelistSize : Int) < sampleConsts.freelistRegionSize - wrappedWriter.db.pageSize ∧
    fullFreelist.io wrappedWriter.trace (.freelistWrite
      (freelistPgid sampleConsts wrappedWriter.tx.meta.flid wrappedWriter.db.pageSize)) = none ∧
    ∃ q : Page, Tx.commitFreelist sampleConsts fullFreelist wrappedWriter =
        .ok none { wrappedWriter.emit (.freelistWrite q.id) with
          tx.pages := wrappedWriter.tx.pages.set q.id q } ∧
      q.id = 2 + (2 ^ 64 - 1 + 1) % 2 *
        (sampleConsts.freelistRegionSize / wrappedWriter.db.pageSize) ∧
      q.id + q.overflow < 2 + ((2 ^ 64 - 1 + 1) % 2 + 1) *
        (sampleConsts.freelistRegionSize / wrappedWriter.db.pageSize) ∧
      (∀ j, q.id ≤ j → j ≤ q.id + q.overflow →
        ¬(2 + (2 ^ 64 - 1) % 2 * (sampleConsts.freelistRegionSize / wrappedWriter.db.pageSize) ≤ j ∧
          j < 2 + ((2 ^ 64 - 1) % 2 + 1) *
            (sampleConsts.freelistRegionSize / wrappedWriter.db.pageSize))) ∧
      q.id + q.overflow < 2 + 2 * (sampleConsts.freelistRegionSize / wrappedWriter.db.pageSize) ∧
      (freelistPages fullFreelist.freelistSize wrappedWriter.db.pageSize < 2 ^ 32 →
        fullFreelist.freelistSize < (q.overflow + 1) * wrappedWriter.db.pageSize) :=
  ⟨rfl, by decide, rfl,
    commitFreelist_region sampleConsts fullFreelist wrappedWriter ⟨2, 4, 0, 2 ^ 64 - 1⟩ false rfl
      (by decide) rfl⟩

def wideRegion : Consts := { sampleConsts with freelistRegionSize := 2 ^ 45, region_lt := by decide }

def wideFreelist : Env := { sampleEnv with freelistSize := 2 ^ 44 }

/-- On 4 KiB pages the freelist of `2^44` bytes passes the assertion and takes `2^32 + 1` pages,
but `uint32(pages) - 1` makes the page it registers a single page, far smaller than the
freelist. -/
theorem commitFreelist_overflow_truncated :
    (wideFreelist.freelistSize : Int) < wideRegion.freelistRegionSize - sampleWriter.db.pageSize ∧
    freelistPages wideFreelist.freelistSize sampleWriter.db.pageSize = 2 ^ 32 + 1 ∧
    ∃ q : Page, Tx.commitFreelist wideRegion wideFreelist sampleWriter =
        .ok none { sampleWriter.emit (.freelistWrite q.id) with
          tx.pages := sampleWriter.tx.pages.set q.id q } ∧
      q.overflow = 0 ∧ (q.overflow + 1) * sampleWriter.db.pageSize < wideFreelist.freelistSize := by
  have hsize : (wideFreelist.freelistSize : Int) <
      wideRegion.freelistRegionSize - sampleWriter.db.pageSize := by decide
  refine ⟨hsize, by decide, ?_⟩
  rcases commitFreelist_cases wideRegion wideFreelist sampleWriter with
    ⟨h, -⟩ | ⟨-, ⟨e, he, -⟩ | ⟨-, hc⟩⟩
  · exact absurd hsize h
  · cases he
  · exact ⟨freelistPage wideFreelist
      (freelistPgid wideRegion sampleWriter.tx.meta.flid sampleWriter.db.pageSize)
      (freelistOverflow (freelistPages wideFreelist.freelistSize sampleWriter.db.pageSize)),
      hc, by decide, by decide⟩

end Bbolt
