/-
The write path of `tx.go`: `write` puts the dirty pages down in ascending id order, each page in
chunks of at most `maxAllocSize - 1` bytes at its own file offset, then syncs and gives the
single-page buffers back to the pool; `writeMeta` writes the meta page and syncs. When every
`writeAt` succeeds, the chunks of a page are exactly `[k*C, min((k+1)*C, len))` at
`id*pageSize + k*C`, so they tile the page; when one fails, nothing is written or synced after it.
-/
import Bbolt.Tx.Basic

namespace Bbolt

/-! ## Offsets and chunks -/

/-- `int64(x)`: `x` as a signed 64-bit integer. -/
def toInt64 (x : Int) : Int := (x + 2 ^ 63) % 2 ^ 64 - 2 ^ 63

theorem toInt64_of_lt {x : Int} (h0 : 0 ≤ x) (h : x < 2 ^ 63) : toInt64 x = x := by
  unfold toInt64; omega

/-- Bytes `[a, b)` of a page's memory, `unsafeByteSlice(p, a, 0, b - a)`. -/
def Page.bytes (p : Page) (a b : Nat) : List UInt8 := (List.range (b - a)).map fun i => p.mem (a + i)

theorem Page.bytes_append (p : Page) {a b c : Nat} (hab : a ≤ b) (hbc : b ≤ c) :
    p.bytes a b ++ p.bytes b c = p.bytes a c := by
  unfold Page.bytes
  obtain ⟨m, rfl⟩ := Nat.exists_eq_add_of_le hab
  obtain ⟨n, rfl⟩ := Nat.exists_eq_add_of_le hbc
  simp only [Nat.add_sub_cancel_left, show a + m + n - a = m + n by omega, List.range_add,
    List.map_append, List.map_map]
  congr 1
  refine List.map_congr_left fun i _ => ?_
  simp only [Function.comp, Nat.add_assoc]

/-- The inner loop of `write` for page `p`: with `rem` bytes left, a chunk of
`sz = min(rem, maxAllocSize - 1)` bytes from `written` bytes into the page goes to `offset`,
until nothing is left. The loop's calls do not depend on earlier outcomes; `write` makes them in
order and stops at the first error. -/
def chunkEvents (K : Consts) (p : Page) (rem : Nat) (offset : Int) (written : Nat) : List Event :=
  let sz := if rem > K.maxAllocSize - 1 then K.maxAllocSize - 1 else rem
  if rem - sz = 0 then [.writeAt (p.bytes written (written + sz)) offset]
  else .writeAt (p.bytes written (written + sz)) offset ::
    chunkEvents K p (rem - sz) (toInt64 (offset + sz)) (written + sz)
termination_by rem
decreasing_by have := K.two_le; split at * <;> omega

/-- The calls `write` makes for page `p`: its `(overflow + 1) * pageSize` bytes (`uint64`) in
chunks from file offset `int64(id) * pageSize`. -/
def pageChunks (K : Consts) (ps : Nat) (p : Page) : List Event :=
  chunkEvents K p ((p.overflow + 1) * ps % 2 ^ 64) (toInt64 (toInt64 p.id * ps)) 0

/-- Whether `write` and `writeMeta` sync: unless `NoSync` is set and `IgnoreNoSync` is not. -/
def syncRequired (K : Consts) (db : DB) : Bool := !db.NoSync || K.IgnoreNoSync

/-- `if !tx.db.NoSync || IgnoreNoSync { fdatasync(tx.db) }`. -/
def TxState.sync (K : Consts) (env : Env) (s : TxState) : Option Err × TxState :=
  if syncRequired K s.db then s.call env .fdatasync else (none, s)

def poolPuts (pages : List Page) : List Event :=
  (pages.filter fun p => p.overflow = 0).map fun p => .pagePoolPut p.id

theorem poolPuts_quiet {pages : List Page} : ∀ x ∈ poolPuts pages, x.fallible = false := by
  intro x hx
  obtain ⟨p, -, rfl⟩ := List.mem_map.1 hx
  rfl

/-- `write()`: the page cache is emptied, its pages are written in ascending id order, then
synced, then the single-page buffers go back to the pool. -/
def Tx.write (K : Consts) (env : Env) (s : TxState) : Option Err × TxState :=
  let pages := sortPages (s.tx.pages.entries.map Prod.snd)
  let s := { s with tx.pages := .empty }
  andThen (s.issue env (pages.flatMap (pageChunks K s.db.pageSize))) fun s =>
  andThen (s.sync K env) fun s =>
  (none, { s with trace := s.trace ++ poolPuts pages })

/-- Modelled from the spec: `meta.write` (not in `src/`) writes the meta to the meta page
`txid % 2`, the slot the previous commit did not use. -/
def metaPgid (m : Meta) : Nat := m.txid % 2

/-- `writeMeta()`: the meta page at its file offset, then a sync. -/
def Tx.writeMeta (K : Consts) (env : Env) (s : TxState) : Option Err × TxState :=
  andThen (s.call env (.writeMeta s.tx.meta (toInt64 (toInt64 (metaPgid s.tx.meta) * s.db.pageSize))))
    fun s => s.sync K env

/-! ## The chunks of one page -/

theorem mem_chunkEvents {K : Consts} {p : Page} {x : Event} : ∀ {rem : Nat} {off : Int} {w : Nat},
    x ∈ chunkEvents K p rem off w → ∃ buf o, x = .writeAt buf o := by
  intro rem
  induction rem using Nat.strong_induction_on with
  | _ rem ih =>
  intro off w hx
  rw [chunkEvents] at hx
  have := K.two_le
  split at hx <;> split at hx
  · exact ⟨_, _, List.mem_singleton.1 hx⟩
  · rcases List.mem_cons.1 hx with rfl | hx
    exacts [⟨_, _, rfl⟩, ih _ (by omega) hx]
  · exact ⟨_, _, List.mem_singleton.1 hx⟩
  · omega

/-- The `k`-th call of the chunk loop over `len` bytes from `w` bytes into page `p`, starting at
file offset `off` with chunks of `c` bytes: bytes `[w + k*c, w + min((k+1)*c, len))` of the page
to `off + k*c`. -/
def chunkAt (c : Nat) (p : Page) (len : Nat) (off : Int) (w k : Nat) : Event :=
  .writeAt (p.bytes (w + k * c) (w + min ((k + 1) * c) len)) (off + (k * c : Nat))

/-- Below `2^63` the chunk loop's offsets do not wrap, so it makes `(len - 1) / C + 1` calls
(`ceil(len / C)` for `len > 0`), the `k`-th as `chunkAt` says. -/
theorem chunkEvents_eq_map (K : Consts) (p : Page) {rem : Nat} {off : Int} (w : Nat)
    (h0 : 0 < rem) (hoff : 0 ≤ off) (hlt : off + rem < 2 ^ 63) :
    chunkEvents K p rem off w = (List.range ((rem - 1) / (K.maxAllocSize - 1) + 1)).map
      (chunkAt (K.maxAllocSize - 1) p rem off w) := by
  induction rem using Nat.strong_induction_on generalizing off w with
  | _ rem ih =>
  have hC : 1 ≤ K.maxAllocSize - 1 := by have := K.two_le; omega
  rw [chunkEvents]
  generalize K.maxAllocSize - 1 = C at *
  by_cases hle : rem ≤ C
  · rw [if_neg (show ¬rem > C by omega), Nat.sub_self, if_pos rfl,
      Nat.div_eq_of_lt (by omega : rem - 1 < C)]
    simp [List.range_succ, chunkAt, Nat.min_eq_right hle]
  · have hq : (rem - 1) / C = (rem - C - 1) / C + 1 := by
      rw [← Nat.add_div_right _ hC]; congr 1; omega
    have hnext : toInt64 (off + C) = off + C := toInt64_of_lt (by omega) (by omega)
    rw [if_pos (show rem > C by omega), if_neg (by omega), hq, List.range_succ_eq_map, hnext,
      @ih (rem - C) (by omega) (off + C) (w + C) (by omega) (by omega) (by omega)]
    simp only [List.map_cons, List.map_map, chunkAt]
    congr 1
    · simp [Nat.min_eq_left (by omega : C ≤ rem)]
    · refine List.map_congr_left fun k _ => ?_
      simp only [Function.comp, chunkAt, Nat.succ_eq_add_one, Nat.add_mul, Nat.one_mul]
      congr 1
      · congr 1 <;> omega
      · push_cast; ring

theorem chunks_tile (p : Page) (c len w : Nat) : ∀ n,
    (List.range n).flatMap (fun k => p.bytes (w + k * c) (w + min ((k + 1) * c) len)) =
      p.bytes w (w + min (n * c) len)
  | 0 => by simp [Page.bytes]
  | n + 1 => by
    rw [List.range_succ, List.flatMap_append, chunks_tile p c len w n, List.flatMap_singleton]
    by_cases h : n * c ≤ len
    · rw [Nat.min_eq_left h, Page.bytes_append p (b := w + n * c) (by omega)
        (by rw [Nat.add_mul]; omega)]
    · have hn : (n + 1) * c ≥ n * c := Nat.mul_le_mul_right c (Nat.le_succ n)
      rw [Nat.min_eq_right (by omega), Nat.min_eq_right (by omega)]
      simp [Page.bytes, show w + len - (w + n * c) = 0 by omega]

/-! ## What `write` does -/

/-- The pages `write` writes, in the order it writes them. -/
def dirtyPages (s : TxState) : List Page := sortPages (s.tx.pages.entries.map Prod.snd)

def writeEvents (K : Consts) (s : TxState) : List Event :=
  (dirtyPages s).flatMap (pageChunks K s.db.pageSize)

def syncEvents (K : Consts) (db : DB) : List Event := if syncRequired K db then [.fdatasync] else []

theorem sync_spec (K : Consts) (env : Env) (s : TxState) :
    ∃ r, s.sync K env = (r, { s with trace := s.trace ++ syncEvents K s.db }) ∧
      Outcome env s.trace (syncEvents K s.db) r := by
  unfold TxState.sync syncEvents
  split
  · exact ⟨_, rfl, call_outcome (show Event.fdatasync.fallible from rfl) s⟩
  · exact ⟨none, by simp, trivial⟩

theorem mem_writeEvents {K : Consts} {s : TxState} {x : Event} (hx : x ∈ writeEvents K s) :
    ∃ buf o, x = .writeAt buf o := by
  obtain ⟨p, -, hx⟩ := List.mem_flatMap.1 hx
  exact mem_chunkEvents hx

theorem writeEvents_fallible {K : Consts} {s : TxState} : ∀ x ∈ writeEvents K s, x.fallible :=
  fun _ hx => by obtain ⟨buf, o, rfl⟩ := mem_writeEvents hx; rfl

theorem write_eq (K : Consts) (env : Env) (s : TxState) :
    Tx.write K env s = andThen (({ s with tx.pages := .empty } : TxState).issue env (writeEvents K s))
      fun s' => andThen (s'.sync K env) fun s'' =>
        (none, { s'' with trace := s''.trace ++ poolPuts (dirtyPages s) }) := rfl

/-- What `write` does, with the page cache emptied: either every chunk is written and then the
sync made, with the sync's outcome, and on success the buffers go back to the pool; or the chunks
are written up to the first that fails, which ends it. -/
theorem write_cases (K : Consts) (env : Env) (s : TxState) :
    (∃ r, AllOk env s.trace (writeEvents K s) ∧
      Outcome env (s.trace ++ writeEvents K s) (syncEvents K s.db) r ∧
      Tx.write K env s = (r, { s with
        tx.pages := .empty
        trace := s.trace ++ writeEvents K s ++ syncEvents K s.db ++
          (if r = none then poolPuts (dirtyPages s) else []) })) ∨
    ∃ W f R e, writeEvents K s = W ++ f :: R ∧ AllOk env s.trace W ∧
      env.io (s.trace ++ W) f = some e ∧
      Tx.write K env s = (some e, { s with tx.pages := .empty, trace := s.trace ++ W ++ [f] }) := by
  rcases issue_spec ({ s with tx.pages := .empty } : TxState) (writeEvents K s)
      writeEvents_fallible with
    ⟨hall, hi⟩ | ⟨W, f, R, e, hd, hW, he, hi⟩
  · obtain ⟨r, hs, hout⟩ := sync_spec K env
      { s with tx.pages := .empty, trace := s.trace ++ writeEvents K s }
    refine .inl ⟨r, hall, hout, ?_⟩
    rw [write_eq, hi, andThen_none, hs]
    cases r <;> simp
  · exact .inr ⟨W, f, R, e, hd, hW, he, by rw [write_eq, hi, andThen_some]⟩

theorem write_pages (K : Consts) (env : Env) (s : TxState) :
    (Tx.write K env s).2.tx = { s.tx with pages := .empty } := by
  rcases write_cases K env s with ⟨r, -, -, h⟩ | ⟨W, f, R, e, -, -, -, h⟩ <;> rw [h]

/-! ## The chunks `write` makes -/

/-- The chunk writes of page `p` as the spec describes them: `ceil(len / C)` calls for the
`len = (overflow + 1) * pageSize` bytes of the page, the `k`-th copying bytes
`[k*C, min((k+1)*C, len))` to file offset `id*pageSize + k*C`. -/
def specChunks (C ps : Nat) (p : Page) : List Event :=
  (List.range (((p.overflow + 1) * ps + C - 1) / C)).map fun k =>
    .writeAt (p.bytes (k * C) (min ((k + 1) * C) ((p.overflow + 1) * ps))) (p.id * ps + k * C : Nat)

/-- Below `2^63` bytes the loop of `write` makes the chunks the spec describes. -/
theorem pageChunks_eq_specChunks (K : Consts) {ps : Nat} (hps : 0 < ps) {p : Page}
    (h : (p.id + p.overflow + 1) * ps < 2 ^ 63) :
    pageChunks K ps p = specChunks (K.maxAllocSize - 1) ps p := by
  have hlen : (p.overflow + 1) * ps ≤ (p.id + p.overflow + 1) * ps :=
    Nat.mul_le_mul_right ps (by omega)
  have hid : p.id * ps + (p.overflow + 1) * ps = (p.id + p.overflow + 1) * ps := by ring
  have hpos : 0 < (p.overflow + 1) * ps := Nat.mul_pos (by omega) hps
  have hid1 : p.id ≤ p.id * ps := Nat.le_mul_of_pos_right _ hps
  have hC : 0 < K.maxAllocSize - 1 := by have := K.two_le; omega
  unfold pageChunks specChunks
  rw [Nat.mod_eq_of_lt (by omega), toInt64_of_lt (x := p.id) (by omega) (by omega),
    show ((p.id : Int) * ps) = ((p.id * ps : Nat) : Int) by push_cast; ring,
    toInt64_of_lt (x := (p.id * ps : Nat)) (by omega) (by omega),
    chunkEvents_eq_map K p 0 hpos (by omega) (by omega),
    show (p.overflow + 1) * ps + (K.maxAllocSize - 1) - 1 =
      (p.overflow + 1) * ps - 1 + (K.maxAllocSize - 1) by omega, Nat.add_div_right _ hC]
  refine List.map_congr_left fun k _ => ?_
  simp [chunkAt]

theorem specChunks_tile (p : Page) {C : Nat} (hC : 0 < C) (len : Nat) :
    (List.range ((len + C - 1) / C)).flatMap (fun k => p.bytes (k * C) (min ((k + 1) * C) len)) =
      p.bytes 0 len := by
  have hq := Nat.div_add_mod (len + C - 1) C
  have hr := Nat.mod_lt (len + C - 1) hC
  have htile := chunks_tile p C len 0 ((len + C - 1) / C)
  simp only [Nat.zero_add] at htile
  rw [htile, Nat.min_eq_right (by rw [Nat.mul_comm _ C]; omega)]

/-- The dirty pages of a cache whose pages sit at their keys and end below `2^63` bytes go in
strictly ascending id, each cut into the spec's chunks. -/
theorem writeEvents_eq_specChunks (K : Consts) (s : TxState)
    (hkey : ∀ e ∈ s.tx.pages.entries, e.2.id = e.1)
    (hbound : ∀ e ∈ s.tx.pages.entries, (e.2.id + e.2.overflow + 1) * s.db.pageSize < 2 ^ 63) :
    (dirtyPages s).Perm (s.tx.pages.entries.map Prod.snd) ∧
    (dirtyPages s).Pairwise (fun a b => a.id < b.id) ∧
    writeEvents K s = (dirtyPages s).flatMap (specChunks (K.maxAllocSize - 1) s.db.pageSize) := by
  have hperm := sortPages_perm (s.tx.pages.entries.map Prod.snd)
  have hids : (s.tx.pages.entries.map Prod.snd).map (·.id) = s.tx.pages.entries.map Prod.fst := by
    rw [List.map_map]; exact List.map_congr_left fun e he => hkey e he
  refine ⟨hperm, sortPages_lt (hids ▸ s.tx.pages.nodup), ?_⟩
  unfold writeEvents List.flatMap
  congr 1
  refine List.map_congr_left fun p hp => ?_
  obtain ⟨e, he, rfl⟩ := List.mem_map.1 (hperm.subset hp)
  exact pageChunks_eq_specChunks K s.db.pageSize_pos (hbound e he)

/-- `write` on a page cache whose pages sit at their keys and end below `2^63` bytes. The pages
go in strictly ascending id, each cut into the chunks the spec describes, and those chunks tile
the page. The cache is emptied. When every chunk write succeeds, only the sync and the buffer
pool come after them; when one fails, `write` returns its error right after it. -/
theorem write_chunks (K : Consts) (env : Env) (s : TxState)
    (hkey : ∀ e ∈ s.tx.pages.entries, e.2.id = e.1)
    (hbound : ∀ e ∈ s.tx.pages.entries, (e.2.id + e.2.overflow + 1) * s.db.pageSize < 2 ^ 63) :
    (dirtyPages s).Perm (s.tx.pages.entries.map Prod.snd) ∧
    (dirtyPages s).Pairwise (fun a b => a.id < b.id) ∧
    writeEvents K s = (dirtyPages s).flatMap (specChunks (K.maxAllocSize - 1) s.db.pageSize) ∧
    (∀ p ∈ dirtyPages s,
      (List.range (((p.overflow + 1) * s.db.pageSize + (K.maxAllocSize - 1) - 1) /
        (K.maxAllocSize - 1))).flatMap (fun k => p.bytes (k * (K.maxAllocSize - 1))
          (min ((k + 1) * (K.maxAllocSize - 1)) ((p.overflow + 1) * s.db.pageSize))) =
        p.bytes 0 ((p.overflow + 1) * s.db.pageSize)) ∧
    (Tx.write K env s).2.tx.pages.entries = [] ∧
    (AllOk env s.trace (writeEvents K s) → ∃ rest,
      (Tx.write K env s).2.trace = s.trace ++ writeEvents K s ++ rest ∧
      rest <+: syncEvents K s.db ++ poolPuts (dirtyPages s)) ∧
    (∀ W f R e, writeEvents K s = W ++ f :: R → AllOk env s.trace W →
      env.io (s.trace ++ W) f = some e →
      Tx.write K env s = (some e, { s with tx.pages := .empty, trace := s.trace ++ W ++ [f] })) := by
  have hC : 0 < K.maxAllocSize - 1 := by have := K.two_le; omega
  obtain ⟨hperm, hlt, hchunks⟩ := writeEvents_eq_specChunks K s hkey hbound
  refine ⟨hperm, hlt, hchunks, fun p _ => specChunks_tile p hC _, by rw [write_pages]; rfl, ?_, ?_⟩
  · intro hall
    rcases write_cases K env s with ⟨r, -, -, h⟩ | ⟨W, f, R, e, hd, hW, he, -⟩
    · refine ⟨_, by rw [h, List.append_assoc], ?_⟩
      cases r
      · exact List.prefix_refl _
      · simp [List.prefix_append]
    · rw [hd] at hall
      have hf := writeEvents_fallible f (by rw [hd]; simp)
      simp [AllOk.no_fail hall hf] at he
  · intro W f R e hd hW he
    have hfW : ∀ x ∈ W, x.fallible := fun x hx => writeEvents_fallible x (by rw [hd]; simp [hx])
    rw [write_eq, hd, issue_fails (s := { s with tx.pages := .empty }) hfW hW he, andThen_some]

/-- A writer with three dirty pages cached out of order: page 8 over three pages, page 3 over two
and page 5 alone. -/
def dirtyWriter : TxState :=
  ⟨{ Tx.init true false ⟨2, 11, 0, 0⟩ with
      pages := ((PageCache.empty.set 8 ⟨8, branchPageFlag, 0, 2, fun _ => 0⟩).set 3 samplePage).set 5
        ⟨5, leafPageFlag, 0, 0, fun _ => 0⟩ }, sampleDB, []⟩

theorem write_chunks_sample :
    (∀ e ∈ dirtyWriter.tx.pages.entries, e.2.id = e.1) ∧
    (∀ e ∈ dirtyWriter.tx.pages.entries,
      (e.2.id + e.2.overflow + 1) * dirtyWriter.db.pageSize < 2 ^ 63) ∧
    (dirtyPages dirtyWriter).Perm (dirtyWriter.tx.pages.entries.map Prod.snd) ∧
    (dirtyPages dirtyWriter).Pairwise (fun a b => a.id < b.id) ∧
    writeEvents sampleConsts dirtyWriter = (dirtyPages dirtyWriter).flatMap
      (specChunks (sampleConsts.maxAllocSize - 1) dirtyWriter.db.pageSize) ∧
    (∀ p ∈ dirtyPages dirtyWriter,
      (List.range (((p.overflow + 1) * dirtyWriter.db.pageSize + (sampleConsts.maxAllocSize - 1) - 1) /
        (sampleConsts.maxAllocSize - 1))).flatMap (fun k => p.bytes (k * (sampleConsts.maxAllocSize - 1))
          (min ((k + 1) * (sampleConsts.maxAllocSize - 1)) ((p.overflow + 1) * dirtyWriter.db.pageSize))) =
        p.bytes 0 ((p.overflow + 1) * dirtyWriter.db.pageSize)) ∧
    (Tx.write sampleConsts sampleEnv dirtyWriter).2.tx.pages.entries = [] ∧
    (AllOk sampleEnv dirtyWriter.trace (writeEvents sampleConsts dirtyWriter) → ∃ rest,
      (Tx.write sampleConsts sampleEnv dirtyWriter).2.trace =
        dirtyWriter.trace ++ writeEvents sampleConsts dirtyWriter ++ rest ∧
      rest <+: syncEvents sampleConsts dirtyWriter.db ++ poolPuts (dirtyPages dirtyWriter)) ∧
    (∀ W f R e, writeEvents sampleConsts dirtyWriter = W ++ f :: R →
      AllOk sampleEnv dirtyWriter.trace W → sampleEnv.io (dirtyWriter.trace ++ W) f = some e →
      Tx.write sampleConsts sampleEnv dirtyWriter =
        (some e, { dirtyWriter with tx.pages := .empty, trace := dirtyWriter.trace ++ W ++ [f] })) :=
  have hkey : ∀ e ∈ dirtyWriter.tx.pages.entries, e.2.id = e.1 := by decide
  have hbound : ∀ e ∈ dirtyWriter.tx.pages.entries,
      (e.2.id + e.2.overflow + 1) * dirtyWriter.db.pageSize < 2 ^ 63 := by decide
  ⟨hkey, hbound, write_chunks sampleConsts sampleEnv dirtyWriter hkey hbound⟩

end Bbolt
