/-
What a commit leaves of the committed state it started from. A writer begins from the last
committed meta `m`, which sits in meta page `m.txid % 2` and points at a freelist in region
`m.flid % 2`; `init` bumps both ids, so the commit writes its meta into the other meta page and
its freelist into the other region. When spilling put every dirty page after the two regions, no
write a commit makes touches `m`'s meta page or its freelist region: whichever of its writes reach
the file before a crash, in whatever order, those bytes read back as they were. The commit fails,
panics or succeeds with the old snapshot intact.
-/
import Bbolt.Tx.Durability

namespace Bbolt

/-! ## The file -/

/-- The offset and length of what a call writes: a chunk its buffer, the meta write one page. -/
def Event.span (ps : Nat) : Event → Option (Int × Nat)
  | .writeAt buf off => some (off, buf.length)
  | .writeMeta _ off => some (off, ps)
  | _ => none

/-- The file's bytes after a call: `writeAt` puts its buffer at its offset, the meta write the
page `enc m` that `meta.write` fills (outside `src/`); the other calls write nothing. -/
def Event.apply (ps : Nat) (enc : Meta → Nat → UInt8) (img : Int → UInt8) : Event → Int → UInt8
  | .writeAt buf off, x => if off ≤ x ∧ x < off + buf.length then buf.getD (x - off).toNat 0 else img x
  | .writeMeta m off, x => if off ≤ x ∧ x < off + ps then enc m (x - off).toNat else img x
  | _, x => img x

theorem Event.isWrite_of_span {ps : Nat} {ev : Event} {o : Int} {l : Nat}
    (h : ev.span ps = some (o, l)) : ev.isWrite := by
  cases ev <;> simp_all [Event.span, Event.isWrite]

theorem Event.apply_of_miss {ps : Nat} {enc : Meta → Nat → UInt8} {img : Int → UInt8} {x : Int}
    (ev : Event) (h : ∀ o l, ev.span ps = some (o, l) → x < o ∨ o + l ≤ x) :
    ev.apply ps enc img x = img x := by
  cases ev <;> simp only [Event.apply]
  case writeAt buf off => rw [if_neg (by have := h _ _ rfl; omega)]
  case writeMeta m off => rw [if_neg (by have := h _ _ rfl; omega)]

/-- Writes that all miss a byte leave it as it was, in whatever order they land. -/
theorem foldl_apply_of_miss {ps : Nat} {enc : Meta → Nat → UInt8} {x : Int} :
    ∀ (ws : List Event) (img : Int → UInt8),
      (∀ w ∈ ws, ∀ o l, w.span ps = some (o, l) → x < o ∨ o + l ≤ x) →
        ws.foldl (Event.apply ps enc) img x = img x
  | [], _, _ => rfl
  | w :: ws, img, h => by
    rw [List.foldl_cons, foldl_apply_of_miss ws _ fun w' hw' => h w' (List.mem_cons_of_mem _ hw')]
    exact Event.apply_of_miss w (h w (List.mem_cons_self _ _))

theorem page_le_of_byte {ps a b : Nat} {x : Int} (h1 : ((a * ps : Nat) : Int) ≤ x)
    (h2 : x < (((b + 1) * ps : Nat) : Int)) : a ≤ b :=
  Nat.lt_succ_iff.1 (Nat.lt_of_mul_lt_mul_right (Int.ofNat_lt.1 (h1.trans_lt h2)))

/-! ## Which calls of a commit write -/

/-- Whatever way a commit ends, the calls it makes that write to the file are planned ones. -/
theorem CommitEnd.writes_planned {env : Env} {s : TxState} {P : List Event}
    {r : Ret (Option Err)} (h : CommitEnd env s P r) :
    ∃ δ, r.state.trace = s.trace ++ δ ∧ ∀ y ∈ δ, y.isWrite → y ∈ P := by
  cases h with
  | fail W f R e d s' hP _ _ _ _ hc =>
    refine ⟨_, hc.trace, fun y hy hw => ?_⟩
    rw [hP]
    rcases List.mem_append.1 hy with hy | hy
    · exact List.mem_append_left _ hy
    · rcases List.mem_cons.1 hy with rfl | hy
      · exact List.mem_append_right _ (List.mem_cons_self _ _)
      · rw [(rollbackEvents_quiet { s with db.data := d } y hy).2] at hw; cases hw
  | panic W msg s' hWP _ _ ht => exact ⟨W, ht, fun y hy _ => hWP.subset hy⟩
  | done s' _ hc =>
    refine ⟨_, hc.trace, fun y hy hw => ?_⟩
    rw [List.append_assoc] at hy
    rcases List.mem_append.1 hy with hy | hy
    · exact hy
    · rw [(closing_quiet s y hy).2] at hw; cases hw

theorem commitFreelist_large_end (K : Consts) {s t : TxState} {k : TxState → Ret (Option Err)}
    (hf : Frame s t) (ht : t.trace = s.trace)
    (h : ¬(env.freelistSize : Int) < K.freelistRegionSize - s.db.pageSize) :
    CommitEnd env s [] (Ret.andThen (Tx.commitFreelist K env t) k) := by
  rcases commitFreelist_cases K env t with ⟨-, hc⟩ | ⟨hs, -⟩
  · rw [hc]
    exact .panic [] _ _ List.nil_prefix trivial hf (by simp [ht])
  · exact (h (by rwa [← hf.dbase])).elim

/-- A commit whose freelist is too large for its region panics after spilling. -/
theorem commit_end_of_large (K : Consts) (env : Env) {s : TxState} (ho : s.tx.db)
    (hw : s.tx.writable) (hm : s.tx.managed = false)
    (h : ¬(env.freelistSize : Int) < K.freelistRegionSize - s.db.pageSize) :
    CommitEnd env s [.rebalance, .spill] (Tx.Commit K env s) := by
  unfold Tx.Commit
  rw [if_neg (by simp [hm]), if_neg (by simp [ho]), if_neg (by simp [hw])]
  exact CommitEnd.prepend (δ := [.rebalance]) (spill_end ho (commitFreelist_large_end K
    ⟨rfl, rfl, rfl, rfl, rfl, rfl⟩ rfl h)) (Frame.emit s .rebalance) rfl
    (allOk_quiet (by simp [Event.fallible]))

/-- Every write a commit makes, whatever its outcome, is a planned one, and it only writes once
the freelist passed its assertion. -/
theorem commit_writes_planned (K : Consts) (env : Env) (s : TxState) :
    ∃ δ, (Tx.Commit K env s).state.trace = s.trace ++ δ ∧ ∀ y ∈ δ, y.isWrite →
      y ∈ commitPlan K env s ∧ (env.freelistSize : Int) < K.freelistRegionSize - s.db.pageSize := by
  by_cases hs : s.tx.managed = false ∧ s.tx.db ∧ s.tx.writable
  swap
  · exact ⟨[], by rw [commit_state_of_not_open K env hs]; simp, by simp⟩
  obtain ⟨hm, ho, hw⟩ := hs
  by_cases hsize : (env.freelistSize : Int) < K.freelistRegionSize - s.db.pageSize
  · obtain ⟨δ, hδ, hP⟩ := (commit_end K env s ho hw hm).writes_planned
    exact ⟨δ, hδ, fun y hy hy' => ⟨hP y hy hy', hsize⟩⟩
  · obtain ⟨δ, hδ, hP⟩ := (commit_end_of_large K env ho hw hm hsize).writes_planned
    refine ⟨δ, hδ, fun y hy hy' => ?_⟩
    rcases List.mem_pair.1 (hP y hy hy') with rfl | rfl <;> cases hy'

theorem commitPlan_writes (K : Consts) (env : Env) (s : TxState) {y : Event}
    (hy : y ∈ commitPlan K env s) (hw : y.isWrite) :
    y ∈ commitWrites K env s ∨ y = .writeMeta (commitMeta env s)
      (toInt64 (toInt64 (metaPgid (commitMeta env s)) * s.db.pageSize)) := by
  simp only [commitPlan, commitPrefix, metaEvents, List.mem_append, List.mem_cons,
    List.not_mem_nil, or_false] at hy
  rcases hy with (((((⟨rfl | rfl | rfl⟩ | hy) | hy) | hy) | hy) | hy) | rfl | hy
  any_goals cases hw
  · unfold growEvents at hy; split at hy <;> simp_all [Event.isWrite]
  · exact .inl hy
  · rw [syncEvents_noWrite K s.db y hy] at hw; cases hw
  · obtain ⟨p, -, rfl⟩ := List.mem_map.1 hy; cases hw
  · unfold checkEvents at hy; split at hy <;> simp_all [Event.isWrite]
  · exact .inr rfl
  · rw [syncEvents_noWrite K s.db y hy] at hw; cases hw

/-! ## Where the writes land -/

theorem specChunks_within {C ps ps' : Nat} {p : Page} {y : Event} (hy : y ∈ specChunks C ps p)
    {o : Int} {l : Nat} (hs : y.span ps' = some (o, l)) {x : Int} (h1 : o ≤ x) (h2 : x < o + l) :
    ((p.id * ps : Nat) : Int) ≤ x ∧ x < (((p.id + p.overflow + 1) * ps : Nat) : Int) := by
  obtain ⟨k, -, rfl⟩ := List.mem_map.1 hy
  simp only [Event.span, Page.bytes, List.length_map, List.length_range, Option.some.injEq,
    Prod.mk.injEq] at hs
  obtain ⟨rfl, rfl⟩ := hs
  have hlen : (p.id + p.overflow + 1) * ps = p.id * ps + (p.overflow + 1) * ps := by ring
  have hmin := Nat.min_le_right ((k + 1) * C) ((p.overflow + 1) * ps)
  rw [hlen]
  omega

theorem mem_commitPages {K : Consts} {env : Env} {s : TxState} {e : Nat × Page}
    (he : e ∈ (commitPages K env s).entries) :
    e ∈ env.spill.pages.entries ∨
      e.2 = freelistPage env (freelistPgid K s.tx.meta.flid s.db.pageSize)
        (freelistOverflow (freelistPages env.freelistSize s.db.pageSize)) := by
  simp only [commitPages, PageCache.set, List.mem_append, List.mem_filter,
    List.mem_singleton] at he
  rcases he with ⟨he, -⟩ | rfl
  · exact .inl he
  · exact .inr rfl

/-- A freelist that passes the assertion is written from the start of region `flid % 2` and ends
inside it. -/
theorem freelistPage_within (K : Consts) (flid : Nat) {ps size : Nat} (hps : 0 < ps)
    (hsize : (size : Int) < K.freelistRegionSize - ps) :
    freelistPgid K flid ps = 2 + flid % 2 * (K.freelistRegionSize / ps) ∧
      freelistPgid K flid ps + freelistOverflow (freelistPages size ps) <
        2 + flid % 2 * (K.freelistRegionSize / ps) + K.freelistRegionSize / ps := by
  have hov := freelistOverflow_lt (freelistPages_pos size ps)
  have hle := freelistPages_le K hps hsize
  rw [freelistPgid_eq]
  exact ⟨rfl, by omega⟩

/-- Every page a commit registers ends below `2^63` bytes when the spilled ones do and both
freelist regions fit. -/
theorem commitPages_bound (K : Consts) (env : Env) (s : TxState)
    (hspill : ∀ e ∈ env.spill.pages.entries, (e.2.id + e.2.overflow + 1) * s.db.pageSize < 2 ^ 63)
    (hR : 2 * K.freelistRegionSize + 2 * s.db.pageSize < 2 ^ 63)
    (hsize : (env.freelistSize : Int) < K.freelistRegionSize - s.db.pageSize) :
    ∀ e ∈ (commitPages K env s).entries, (e.2.id + e.2.overflow + 1) * s.db.pageSize < 2 ^ 63 := by
  intro e he
  rcases mem_commitPages he with he | he
  · exact hspill e he
  have hreg := freelistPage_within K s.tx.meta.flid s.db.pageSize_pos hsize
  have hQR := Nat.div_mul_le_self K.freelistRegionSize s.db.pageSize
  have hr : s.tx.meta.flid % 2 ≤ 1 := Nat.lt_succ_iff.1 (Nat.mod_lt _ (by decide))
  have hend : e.2.id + e.2.overflow + 1 ≤ 2 + 2 * (K.freelistRegionSize / s.db.pageSize) := by
    rw [he, freelistPage_id, freelistPage_overflow]
    have := Nat.mul_le_mul_right (K.freelistRegionSize / s.db.pageSize) hr
    omega
  calc (e.2.id + e.2.overflow + 1) * s.db.pageSize
      ≤ (2 + 2 * (K.freelistRegionSize / s.db.pageSize)) * s.db.pageSize :=
        Nat.mul_le_mul_right _ hend
    _ < 2 ^ 63 := by rw [Nat.add_mul, Nat.mul_assoc]; omega

/-- Every byte a chunk of the commit writes lies in the pages of a page the commit registered. -/
theorem commitWrites_within (K : Consts) (env : Env) (s : TxState)
    (hkey : ∀ e ∈ env.spill.pages.entries, e.2.id = e.1)
    (hbound : ∀ e ∈ (commitPages K env s).entries,
      (e.2.id + e.2.overflow + 1) * s.db.pageSize < 2 ^ 63)
    {y : Event} (hy : y ∈ commitWrites K env s) {ps : Nat} {o : Int} {l : Nat}
    (hs : y.span ps = some (o, l)) {x : Int} (h1 : o ≤ x) (h2 : x < o + l) :
    ∃ e ∈ (commitPages K env s).entries, ((e.2.id * s.db.pageSize : Nat) : Int) ≤ x ∧
      x < (((e.2.id + e.2.overflow + 1) * s.db.pageSize : Nat) : Int) := by
  obtain ⟨pgs, hperm, -, hchunks⟩ := commitWrites_eq_specChunks K env s hkey hbound
  obtain ⟨pg, hpg, hy⟩ := List.mem_flatMap.1 (hchunks ▸ hy)
  obtain ⟨e, he, rfl⟩ := List.mem_map.1 (hperm.subset hpg)
  exact ⟨e, he, specChunks_within hy hs h1 h2⟩

theorem metaWrite_span {M : Meta} {ps : Nat} (hps : ps < 2 ^ 63) :
    toInt64 (toInt64 (metaPgid M) * ps) = ((metaPgid M * ps : Nat) : Int) := by
  have hmp : metaPgid M ≤ 1 := Nat.lt_succ_iff.1 (Nat.mod_lt _ (by decide))
  have hle : metaPgid M * ps ≤ ps := mul_le_of_le_one_left (Nat.zero_le _) hmp
  rw [toInt64_of_lt (x := metaPgid M) (by omega) (by omega), ← Nat.cast_mul]
  exact toInt64_of_lt (by omega) (by omega)

/-! ## The snapshot survives -/

/-- The pages of the committed state `m` that a commit must leave alone: the meta page `m` was
written to, and the freelist region `m.flid` picked. -/
def snapshotPage (K : Consts) (ps : Nat) (m : Meta) (p : Nat) : Prop :=
  p = metaPgid m ∨
    2 + m.flid % 2 * (K.freelistRegionSize / ps) ≤ p ∧
      p < 2 + (m.flid % 2 + 1) * (K.freelistRegionSize / ps)

section Snapshot

variable (K : Consts) (env : Env) (s : TxState) (m : Meta)

/-- The writer's freelist region is the other one: of `m.flid` and the writer's `flid`, exactly one
is odd. -/
theorem flid_regions (Q : Nat) (hflid : s.tx.meta.flid = (Tx.init true s.tx.managed m).meta.flid) :
    (m.flid % 2 * Q = 0 ∧ s.tx.meta.flid % 2 * Q = Q) ∨
      (m.flid % 2 * Q = Q ∧ s.tx.meta.flid % 2 * Q = 0) := by
  rw [hflid]; simp only [Tx.init, if_true]
  rcases Nat.mod_two_eq_zero_or_one m.flid with h | h
  · rw [show (m.flid + 1) % 2 ^ 64 % 2 = 1 by omega, h]; simp
  · rw [show (m.flid + 1) % 2 ^ 64 % 2 = 0 by omega, h]; simp

/-- No chunk of a commit touches a page of the snapshot it started from: the spilled pages lie
past both regions, and the freelist page inside the other region. -/
theorem commitWrites_miss (hflid : s.tx.meta.flid = (Tx.init true s.tx.managed m).meta.flid)
    (hspill : ∀ e ∈ env.spill.pages.entries, e.2.id = e.1 ∧
      2 + 2 * (K.freelistRegionSize / s.db.pageSize) ≤ e.1 ∧
      (e.2.id + e.2.overflow + 1) * s.db.pageSize < 2 ^ 63)
    (hR : 2 * K.freelistRegionSize + 2 * s.db.pageSize < 2 ^ 63)
    (hsize : (env.freelistSize : Int) < K.freelistRegionSize - s.db.pageSize)
    {y : Event} (hy : y ∈ commitWrites K env s) {o : Int} {l : Nat}
    (hs : y.span s.db.pageSize = some (o, l)) {p : Nat} {x : Int}
    (hp : snapshotPage K s.db.pageSize m p) (hx1 : ((p * s.db.pageSize : Nat) : Int) ≤ x)
    (hx2 : x < (((p + 1) * s.db.pageSize : Nat) : Int)) : x < o ∨ o + l ≤ x := by
  by_contra hmiss
  have hx : o ≤ x ∧ x < o + l := by omega
  obtain ⟨e, he, hlo, hhi⟩ := commitWrites_within K env s (fun e he => (hspill e he).1)
    (commitPages_bound K env s (fun e he => (hspill e he).2.2) hR hsize) hy hs hx.1 hx.2
  have hpg1 := page_le_of_byte hlo hx2
  have hpg2 := page_le_of_byte hx1 hhi
  have hreg := freelistPage_within K s.tx.meta.flid s.db.pageSize_pos hsize
  have hmeta : metaPgid m < 2 := Nat.mod_lt _ (by decide)
  rw [snapshotPage, Nat.succ_mul] at hp
  generalize K.freelistRegionSize / s.db.pageSize = Q at hspill hp hreg
  have hregion := flid_regions s m Q hflid
  rcases mem_commitPages he with he | he
  · have := hspill e he
    omega
  · simp only [he, freelistPage_id, freelistPage_overflow] at hpg1 hpg2
    omega

/-- The meta write lands in one page, the meta page of the writer's `txid`, which is not the one
of `m`. -/
theorem metaWrite_miss (htxid : s.tx.meta.txid = (Tx.init true s.tx.managed m).meta.txid)
    (hps : s.db.pageSize < 2 ^ 63) {o : Int} {l : Nat}
    (hs : (Event.writeMeta (commitMeta env s) (toInt64 (toInt64 (metaPgid (commitMeta env s)) *
      s.db.pageSize))).span s.db.pageSize = some (o, l)) {p : Nat} {x : Int}
    (hp : snapshotPage K s.db.pageSize m p) (hx1 : ((p * s.db.pageSize : Nat) : Int) ≤ x)
    (hx2 : x < (((p + 1) * s.db.pageSize : Nat) : Int)) : x < o ∨ o + l ≤ x := by
  simp only [Event.span, Option.some.injEq, Prod.mk.injEq] at hs
  obtain ⟨rfl, rfl⟩ := hs
  rw [metaWrite_span hps]
  by_contra hx
  have hpm1 := page_le_of_byte (a := metaPgid (commitMeta env s)) (by omega) hx2
  have hpm2 := page_le_of_byte (b := metaPgid (commitMeta env s)) hx1
    (by rw [Nat.succ_mul]; push_cast; omega)
  have hnew : metaPgid (commitMeta env s) = (m.txid + 1) % 2 ^ 64 % 2 := by
    simp only [metaPgid, commitMeta, htxid, Tx.init, if_true]
  have hmeta : metaPgid m < 2 := Nat.mod_lt _ (by decide)
  simp only [snapshotPage, metaPgid] at hmeta hp
  omega

/-- A commit never overwrites the committed state it started from. Let the writer be initialised
from the committed meta `m`, and let spilling leave its dirty pages at their own ids, after the
two freelist regions and below `2^63` bytes. Then whichever of the commit's writes reach the file,
in whatever order and whatever the meta page encodes to, every byte of `m`'s meta page and of its
freelist region reads back as it was: the commit fails, panics or succeeds, and the old snapshot
stays intact. -/
theorem commit_keeps_snapshot
    (htxid : s.tx.meta.txid = (Tx.init true s.tx.managed m).meta.txid)
    (hflid : s.tx.meta.flid = (Tx.init true s.tx.managed m).meta.flid)
    (hspill : ∀ e ∈ env.spill.pages.entries, e.2.id = e.1 ∧
      2 + 2 * (K.freelistRegionSize / s.db.pageSize) ≤ e.1 ∧
      (e.2.id + e.2.overflow + 1) * s.db.pageSize < 2 ^ 63)
    (hR : 2 * K.freelistRegionSize + 2 * s.db.pageSize < 2 ^ 63) :
    ∃ δ, (Tx.Commit K env s).state.trace = s.trace ++ δ ∧
      ∀ (enc : Meta → Nat → UInt8) (img : Int → UInt8) (ws : List Event), (∀ w ∈ ws, w ∈ δ) →
        ∀ p x, snapshotPage K s.db.pageSize m p → ((p * s.db.pageSize : Nat) : Int) ≤ x →
          x < (((p + 1) * s.db.pageSize : Nat) : Int) →
            ws.foldl (Event.apply s.db.pageSize enc) img x = img x := by
  obtain ⟨δ, hδ, hplan⟩ := commit_writes_planned K env s
  refine ⟨δ, hδ, fun enc img ws hws p x hp hx1 hx2 =>
    foldl_apply_of_miss ws img fun w hw o l hs => ?_⟩
  have hwr := Event.isWrite_of_span hs
  obtain ⟨hP, hsize⟩ := hplan w (hws w hw) hwr
  rcases commitPlan_writes K env s hP hwr with hc | rfl
  · exact commitWrites_miss K env s m hflid hspill hR hsize hc hs hp hx1 hx2
  · exact metaWrite_miss K env s m htxid (by omega) hs hp hx1 hx2

end Snapshot

/-- Spilling leaves one dirty page past both freelist regions of `sampleConsts`. -/
def spillFarEnv : Env :=
  { sampleEnv with spill := ⟨PageCache.empty.set 40 ⟨40, leafPageFlag, 0, 1, fun _ => 0⟩, 42, 40⟩ }

theorem commit_keeps_snapshot_sample :
    sampleWriter.tx.meta.txid = (Tx.init true sampleWriter.tx.managed ⟨2, 4, 0, 0⟩).meta.txid ∧
    sampleWriter.tx.meta.flid = (Tx.init true sampleWriter.tx.managed ⟨2, 4, 0, 0⟩).meta.flid ∧
    (∀ e ∈ spillFarEnv.spill.pages.entries, e.2.id = e.1 ∧
      2 + 2 * (sampleConsts.freelistRegionSize / sampleWriter.db.pageSize) ≤ e.1 ∧
      (e.2.id + e.2.overflow + 1) * sampleWriter.db.pageSize < 2 ^ 63) ∧
    2 * sampleConsts.freelistRegionSize + 2 * sampleWriter.db.pageSize < 2 ^ 63 ∧
    ∃ δ, (Tx.Commit sampleConsts spillFarEnv sampleWriter).state.trace = sampleWriter.trace ++ δ ∧
      ∀ (enc : Meta → Nat → UInt8) (img : Int → UInt8) (ws : List Event), (∀ w ∈ ws, w ∈ δ) →
        ∀ p x, snapshotPage sampleConsts sampleWriter.db.pageSize ⟨2, 4, 0, 0⟩ p →
          ((p * sampleWriter.db.pageSize : Nat) : Int) ≤ x →
          x < (((p + 1) * sampleWriter.db.pageSize : Nat) : Int) →
            ws.foldl (Event.apply sampleWriter.db.pageSize enc) img x = img x :=
  ⟨rfl, rfl, by decide, by decide,
    commit_keeps_snapshot sampleConsts spillFarEnv sampleWriter ⟨2, 4, 0, 0⟩ rfl rfl (by decide)
      (by decide)⟩

end Bbolt
