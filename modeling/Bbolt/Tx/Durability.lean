/-
The order of a commit's disk writes. The meta page is what makes a commit visible after a crash,
so it may only be written once everything it points to is on disk: a commit writes it at most
once, only after every chunk of every dirty page and their sync succeeded, and writes nothing
after it; a failure before it means it is never written and the commit returns that failure.
The pages before it go down in ascending id, each in the chunks the spec describes.
-/
import Bbolt.Tx.Commit

namespace Bbolt

/-! ## Which calls write -/

theorem Event.isWrite_of_isMeta {x : Event} (h : x.isMeta) : x.isWrite := by
  cases x <;> simp_all [Event.isMeta, Event.isWrite]

theorem commitPrefix_noMeta (K : Consts) (env : Env) (s : TxState) :
    ∀ y ∈ commitPrefix K env s, y.isMeta = false := by
  intro y hy
  simp only [commitPrefix, List.mem_append, List.mem_cons, List.not_mem_nil, or_false] at hy
  rcases hy with ((((⟨rfl | rfl | rfl⟩ | hy) | hy) | hy) | hy) | hy
  · rfl
  · rfl
  · rfl
  · unfold growEvents at hy; split at hy <;> simp_all [Event.isMeta]
  · obtain ⟨buf, o, rfl⟩ := mem_writeEvents hy; rfl
  · unfold syncEvents at hy; split at hy <;> simp_all [Event.isMeta]
  · obtain ⟨p, -, rfl⟩ := List.mem_map.1 hy; rfl
  · unfold checkEvents at hy; split at hy <;> simp_all [Event.isMeta]

theorem syncEvents_noWrite (K : Consts) (db : DB) : ∀ y ∈ syncEvents K db, y.isWrite = false := by
  unfold syncEvents; split <;> simp [Event.isWrite]

theorem rollbackEvents_quiet (s : TxState) :
    ∀ y ∈ rollbackEvents s, y.fallible = false ∧ y.isWrite = false := by
  simp only [rollbackEvents, undoEvents, closeEvents]
  split_ifs <;> simp [Event.fallible, Event.isWrite]

theorem closing_quiet (s : TxState) : ∀ y ∈ closeEvents s.tx.writable ++
    s.tx.commitHandlers.map .handler, y.fallible = false ∧ y.isWrite = false := by
  simp only [closeEvents, List.mem_append, List.mem_map]
  split <;> rintro y (hy | ⟨fn, -, rfl⟩) <;> simp_all [Event.fallible, Event.isWrite]

/-! ## Where the meta write sits -/

theorem AllOk.of_prefix {env : Env} {h A W : List Event} (hp : A <+: W) (hW : AllOk env h W) :
    AllOk env h A := by
  obtain ⟨t, rfl⟩ := hp
  exact (allOk_append.1 hW).1

/-- In calls made along a prefix of a plan `Pre ++ m :: S` whose only meta write is `m`, followed
by calls that write nothing, a meta write comes right after `Pre`, and nothing after it writes. -/
theorem meta_split {Pre S Q T A B : List Event} {m x : Event}
    (hPre : ∀ y ∈ Pre, y.isMeta = false) (hS : ∀ y ∈ S, y.isWrite = false)
    (hT : ∀ y ∈ T, y.isWrite = false) (hQ : Q <+: Pre ++ m :: S) (hd : A ++ x :: B = Q ++ T)
    (hx : x.isMeta) : A = Pre ∧ A ++ [x] <+: Q ∧ ∀ y ∈ B, y.isWrite = false := by
  have hxw := Event.isWrite_of_isMeta hx
  have hxT : x ∉ T := fun h => by simp [hT x h] at hxw
  rcases List.append_eq_append_iff.1 hd with ⟨_ | ⟨y, a'⟩, rfl, hb⟩ | ⟨c', rfl, hc⟩
  · exact (hxT (by rw [List.nil_append] at hb; rw [← hb]; simp)).elim
  · rw [List.cons_append] at hb
    obtain ⟨rfl, rfl⟩ := List.cons.inj hb
    obtain ⟨U, hU⟩ := hQ
    rw [List.append_assoc, List.cons_append] at hU
    have hrest : a' ++ U = S → ∀ y ∈ a' ++ T, y.isWrite = false := fun hS' y hy => by
      rcases List.mem_append.1 hy with hy | hy
      exacts [hS y (by rw [← hS']; simp [hy]), hT y hy]
    rcases List.append_eq_append_iff.1 hU with ⟨_ | ⟨z, a₁⟩, rfl, hm⟩ | ⟨_ | ⟨z, c₁⟩, rfl, hm⟩
    · simp only [List.append_nil, List.nil_append, List.cons.injEq] at hm
      exact ⟨(List.append_nil A).symm, ⟨a', by simp⟩, hrest hm.2⟩
    · simp only [List.cons_append, List.cons.injEq] at hm
      simpa [hx] using hPre x (by rw [hm.1]; simp)
    · simp only [List.append_nil, List.nil_append, List.cons.injEq] at hm
      exact ⟨List.append_nil Pre, ⟨a', by simp⟩, hrest hm.2.symm⟩
    · simp only [List.cons_append, List.cons.injEq] at hm
      simpa [hxw] using hS x (by rw [hm.2]; simp)
  · exact (hxT (by rw [hc]; simp)).elim

theorem meta_count_le_one : ∀ δ : List Event,
    (∀ A x B, δ = A ++ x :: B → x.isMeta → ∀ y ∈ B, y.isWrite = false) →
    (δ.filter Event.isMeta).length ≤ 1
  | [], _ => by simp
  | x :: δ, h => by
    by_cases hx : x.isMeta
    · have hB := h [] x δ rfl hx
      have : δ.filter Event.isMeta = [] := List.filter_eq_nil_iff.2 fun y hy hm =>
        by simpa [Event.isWrite_of_isMeta hm] using hB y hy
      simp [hx, this]
    · have := meta_count_le_one δ fun A y B hd => h (x :: A) y B (by simp [hd])
      simpa [hx] using this

/-- A run of calls along a prefix `Q` of the plan, all successful but maybe the last, then calls
that write nothing: its meta write comes right after the calls planned before it, which all
succeeded, and nothing after it writes. -/
theorem meta_after_prefix (K : Consts) {env : Env} {s : TxState} {Q T W A B : List Event}
    {x : Event} (hQ : Q <+: commitPlan K env s) (hT : ∀ y ∈ T, y.isWrite = false)
    (hW : AllOk env s.trace W) (hWQ : Q = W ∨ ∃ f, Q = W ++ [f]) (hd : A ++ x :: B = Q ++ T)
    (hx : x.isMeta) :
    A = commitPrefix K env s ∧ AllOk env s.trace A ∧ ∀ y ∈ B, y.isWrite = false := by
  obtain ⟨hA, hAQ, hB⟩ := meta_split (commitPrefix_noMeta K env s) (syncEvents_noWrite K s.db)
    hT hQ hd hx
  refine ⟨hA, AllOk.of_prefix ?_ hW, hB⟩
  rcases hWQ with rfl | ⟨f, rfl⟩
  · exact (List.prefix_append A [x]).trans hAQ
  · exact List.prefix_of_prefix_length_le ((List.prefix_append A [x]).trans hAQ)
      (List.prefix_append W [f]) (by simpa using hAQ.length_le)

/-- A commit of a managed, closed or read-only transaction changes nothing. -/
theorem commit_state_of_not_open (K : Consts) (env : Env) {s : TxState}
    (h : ¬(s.tx.managed = false ∧ s.tx.db ∧ s.tx.writable)) : (Tx.Commit K env s).state = s := by
  unfold Tx.Commit
  split_ifs <;> first | rfl | simp_all

/-- The meta write in the commit's own terms: at most one, with the calls planned before it
all made and successful, and nothing written after it; and a failure before it returns. -/
theorem commit_meta_prefix (K : Consts) (env : Env) (s : TxState) :
    ∃ δ, (Tx.Commit K env s).state.trace = s.trace ++ δ ∧
      (δ.filter Event.isMeta).length ≤ 1 ∧
      (∀ A x B, δ = A ++ x :: B → x.isMeta →
        A = commitPrefix K env s ∧ AllOk env s.trace A ∧ ∀ y ∈ B, y.isWrite = false) ∧
      (∀ A f B e, δ = A ++ f :: B → (∀ y ∈ A, y.isMeta = false) → f.isMeta = false →
        AllOk env s.trace A → f.fallible → env.io (s.trace ++ A) f = some e →
        (∀ y ∈ δ, y.isMeta = false) ∧ ∃ s', Tx.Commit K env s = .ok (some e) s') := by
  by_cases hs : s.tx.managed = false ∧ s.tx.db ∧ s.tx.writable
  swap
  · refine ⟨[], by rw [commit_state_of_not_open K env hs]; simp, by simp, ?_, ?_⟩ <;> simp
  obtain ⟨hm, ho, hw⟩ := hs
  have h := commit_end K env s ho hw hm
  generalize hr : Tx.Commit K env s = r at h
  cases h with
  | fail W f R e d s' hP hW hf he _ hc =>
    have hmeta : ∀ A x B, W ++ f :: rollbackEvents { s with db.data := d } = A ++ x :: B → x.isMeta →
        A = commitPrefix K env s ∧ AllOk env s.trace A ∧ ∀ y ∈ B, y.isWrite = false :=
      fun A x B hd hx => meta_after_prefix K ⟨R, by simp [hP]⟩
        (fun y hy => (rollbackEvents_quiet { s with db.data := d } y hy).2) hW (.inr ⟨f, rfl⟩)
        (by simp [hd]) hx
    refine ⟨_, hc.trace, meta_count_le_one _ fun A x B hd hx => (hmeta A x B hd hx).2.2, hmeta,
      fun A g B e' hd hA hg hAll hgf he' => ?_⟩
    obtain ⟨rfl, rfl, rfl⟩ := fail_at_unique hW (fun y hy => (rollbackEvents_quiet _ y hy).1) hd
      hgf (by simp [he'])
    refine ⟨fun y hy => ?_, s', by rw [he] at he'; cases he'; rfl⟩
    rcases List.mem_append.1 hy with hy | hy
    · exact hA y hy
    · rcases List.mem_cons.1 hy with rfl | hy
      · exact hg
      · cases hy' : y.isMeta
        · rfl
        · simpa [Event.isWrite_of_isMeta hy'] using (rollbackEvents_quiet _ y hy).2
  | panic W msg s' hWP hW hfr ht =>
    have hmeta : ∀ A x B, W = A ++ x :: B → x.isMeta →
        A = commitPrefix K env s ∧ AllOk env s.trace A ∧ ∀ y ∈ B, y.isWrite = false :=
      fun A x B hd hx => meta_after_prefix K hWP (T := []) (by simp) hW (.inl rfl) (by simp [hd]) hx
    refine ⟨W, ht, meta_count_le_one _ fun A x B hd hx => (hmeta A x B hd hx).2.2, hmeta,
      fun A g B e' hd _ _ _ hgf he' => ?_⟩
    subst hd
    simp [AllOk.no_fail hW hgf] at he'
  | done s' hall hc =>
    have hT := closing_quiet s
    have hmeta : ∀ A x B, commitPlan K env s ++ (closeEvents s.tx.writable ++
        s.tx.commitHandlers.map .handler) = A ++ x :: B → x.isMeta →
        A = commitPrefix K env s ∧ AllOk env s.trace A ∧ ∀ y ∈ B, y.isWrite = false :=
      fun A x B hd hx => meta_after_prefix K (List.prefix_refl _) (fun y hy => (hT y hy).2) hall
        (.inl rfl) hd.symm hx
    refine ⟨_, by simpa using hc.trace, meta_count_le_one _ fun A x B hd hx =>
      (hmeta A x B hd hx).2.2, hmeta, fun A g B e' hd _ _ _ hgf he' => ?_⟩
    have hall' := allOk_append.2 ⟨hall, allOk_quiet (h := s.trace ++ commitPlan K env s)
      fun y hy => (hT y hy).1⟩
    rw [hd] at hall'
    simp [AllOk.no_fail hall' hgf] at he'

/-! ## The pages a commit writes -/

/-- When spilling leaves every page at its own id, a commit writes the pages it left and the
freelist page in strictly ascending id, each cut into the spec's chunks (below `2^63` bytes). -/
theorem commitWrites_eq_specChunks (K : Consts) (env : Env) (s : TxState)
    (hkey : ∀ e ∈ env.spill.pages.entries, e.2.id = e.1)
    (hbound : ∀ e ∈ (commitPages K env s).entries,
      (e.2.id + e.2.overflow + 1) * s.db.pageSize < 2 ^ 63) :
    ∃ ps : List Page, ps.Perm ((commitPages K env s).entries.map Prod.snd) ∧
      ps.Pairwise (fun a b => a.id < b.id) ∧
      commitWrites K env s = ps.flatMap (specChunks (K.maxAllocSize - 1) s.db.pageSize) :=
  ⟨_, writeEvents_eq_specChunks K { s with tx.pages := commitPages K env s }
    (PageCache.set_keyed hkey (freelistPage_id _ _ _)) hbound⟩

/-- Before the meta write: spilling, the freelist page and growing, which write nothing; the chunks
of every page the commit registered, each page cut as the spec describes; then the sync when
`NoSync` is off or ignored, the buffer pool and the strict check, which write nothing. -/
theorem commitPrefix_spec (K : Consts) (env : Env) (s : TxState)
    (hkey : ∀ e ∈ env.spill.pages.entries, e.2.id = e.1)
    (hbound : ∀ e ∈ (commitPages K env s).entries,
      (e.2.id + e.2.overflow + 1) * s.db.pageSize < 2 ^ 63) :
    ∃ (pgs : List Page) (A₁ A₂ : List Event), pgs.Perm ((commitPages K env s).entries.map Prod.snd) ∧
      commitPrefix K env s = A₁ ++ pgs.flatMap (specChunks (K.maxAllocSize - 1) s.db.pageSize) ++ A₂ ∧
      (∀ y ∈ A₁ ++ A₂, y.isWrite = false) ∧
      ((!s.db.NoSync || K.IgnoreNoSync) = true → .fdatasync ∈ A₂) := by
  obtain ⟨pgs, hperm, -, hchunks⟩ := commitWrites_eq_specChunks K env s hkey hbound
  refine ⟨pgs, _, _, hperm, by rw [commitPrefix, ← hchunks, List.append_assoc _ (syncEvents _ _),
    List.append_assoc _ (syncEvents _ _ ++ _)], fun y hy => ?_, fun hs => by simp [syncEvents,
      syncRequired, hs]⟩
  simp only [List.mem_append, List.mem_cons, List.not_mem_nil, or_false] at hy
  rcases hy with ((⟨rfl | rfl | rfl⟩ | hy) | (hy | hy) | hy)
  any_goals rfl
  · unfold growEvents at hy; split at hy <;> simp_all [Event.isWrite]
  · exact syncEvents_noWrite K s.db y hy
  · obtain ⟨p, -, rfl⟩ := List.mem_map.1 hy; rfl
  · unfold checkEvents at hy; split at hy <;> simp_all [Event.isWrite]

/-- A commit writes the meta page at most once, and writes nothing after it. When it writes it,
every call before it succeeded, and among them, before any write of the meta: every chunk of
every page in the dirty cache, the freelist page registered by `commitFreelist` among them, each
page cut into the chunks the spec describes, which tile it, with no other write in between; and
after the last chunk an `fdatasync` unless `NoSync` is set and `IgnoreNoSync` is not. When a call
fails before any meta write, the meta page is never written and the commit returns that call's
error. The dirty cache spilling leaves keeps each page at its own id, below `2^63` bytes. -/
theorem commit_meta_last (K : Consts) (env : Env) (s : TxState)
    (hkey : ∀ e ∈ env.spill.pages.entries, e.2.id = e.1)
    (hbound : ∀ e ∈ (commitPages K env s).entries,
      (e.2.id + e.2.overflow + 1) * s.db.pageSize < 2 ^ 63) :
    ∃ δ, (Tx.Commit K env s).state.trace = s.trace ++ δ ∧
      (δ.filter Event.isMeta).length ≤ 1 ∧
      (∀ A x B, δ = A ++ x :: B → x.isMeta →
        AllOk env s.trace A ∧ (∀ y ∈ B, y.isWrite = false) ∧
        ∃ (pgs : List Page) (A₁ A₂ : List Event), pgs.Perm ((commitPages K env s).entries.map Prod.snd) ∧
          A = A₁ ++ pgs.flatMap (specChunks (K.maxAllocSize - 1) s.db.pageSize) ++ A₂ ∧
          (∀ y ∈ A₁ ++ A₂, y.isWrite = false) ∧
          ((!s.db.NoSync || K.IgnoreNoSync) = true → .fdatasync ∈ A₂)) ∧
      (∀ A f B e, δ = A ++ f :: B → (∀ y ∈ A, y.isMeta = false) → f.isMeta = false →
        AllOk env s.trace A → f.fallible → env.io (s.trace ++ A) f = some e →
        (∀ y ∈ δ, y.isMeta = false) ∧ ∃ s', Tx.Commit K env s = .ok (some e) s') := by
  obtain ⟨δ, hδ, hcount, hmeta, hfail⟩ := commit_meta_prefix K env s
  refine ⟨δ, hδ, hcount, fun A x B hd hx => ?_, hfail⟩
  obtain ⟨rfl, hA, hB⟩ := hmeta A x B hd hx
  exact ⟨hA, hB, commitPrefix_spec K env s hkey hbound⟩

theorem commit_meta_last_sample :
    (∀ e ∈ sampleEnv.spill.pages.entries, e.2.id = e.1) ∧
    (∀ e ∈ (commitPages sampleConsts sampleEnv sampleWriter).entries,
      (e.2.id + e.2.overflow + 1) * sampleWriter.db.pageSize < 2 ^ 63) ∧
    ∃ δ, (Tx.Commit sampleConsts sampleEnv sampleWriter).state.trace = sampleWriter.trace ++ δ ∧
      (δ.filter Event.isMeta).length ≤ 1 ∧
      (∀ A x B, δ = A ++ x :: B → x.isMeta →
        AllOk sampleEnv sampleWriter.trace A ∧ (∀ y ∈ B, y.isWrite = false) ∧
        ∃ (pgs : List Page) (A₁ A₂ : List Event),
          pgs.Perm ((commitPages sampleConsts sampleEnv sampleWriter).entries.map Prod.snd) ∧
          A = A₁ ++ pgs.flatMap
            (specChunks (sampleConsts.maxAllocSize - 1) sampleWriter.db.pageSize) ++ A₂ ∧
          (∀ y ∈ A₁ ++ A₂, y.isWrite = false) ∧
          ((!sampleWriter.db.NoSync || sampleConsts.IgnoreNoSync) = true → .fdatasync ∈ A₂)) ∧
      (∀ A f B e, δ = A ++ f :: B → (∀ y ∈ A, y.isMeta = false) → f.isMeta = false →
        AllOk sampleEnv sampleWriter.trace A → f.fallible →
        sampleEnv.io (sampleWriter.trace ++ A) f = some e →
        (∀ y ∈ δ, y.isMeta = false) ∧
          ∃ s', Tx.Commit sampleConsts sampleEnv sampleWriter = .ok (some e) s') :=
  have hkey : ∀ e ∈ sampleEnv.spill.pages.entries, e.2.id = e.1 := by decide
  have hbound : ∀ e ∈ (commitPages sampleConsts sampleEnv sampleWriter).entries,
      (e.2.id + e.2.overflow + 1) * sampleWriter.db.pageSize < 2 ^ 63 := by decide
  ⟨hkey, hbound, commit_meta_last sampleConsts sampleEnv sampleWriter hkey hbound⟩

end Bbolt
