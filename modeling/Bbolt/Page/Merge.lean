/-
`pgids.merge` and `mergepgids` of `page.go`, with Go's `sort.Search`. The lead/follow loop runs
with a bound on its iterations; the bound `len(a) + len(b)` is never reached, whatever the
inputs, because `lead[0] <= follow[0]` holds on entry to every iteration, so each one moves at
least one id. Every run leaves a permutation of `a ++ b` in front of `dst`, sorted when `a` and
`b` are.
-/
import Bbolt.Page.Basic

namespace Bbolt

/-! ## `sort.Search` -/

/-- The loop of `sort.Search`: `f(i-1)` is false and `f(j)` true, each side possibly undefined. -/
def sort.searchLoop (f : Nat → Bool) (i j : Nat) : Nat :=
  if i < j then
    let h := (i + j) / 2
    if !f h then sort.searchLoop f (h + 1) j else sort.searchLoop f i h
  else i
termination_by j - i

/-- `sort.Search(n, f)`: the binary search for the first index at which `f` holds. -/
def sort.Search (n : Nat) (f : Nat → Bool) : Nat := sort.searchLoop f 0 n

theorem searchLoop_spec (f : Nat → Bool) (n i j : Nat) (hij : i ≤ j) (hj : j ≤ n)
    (hi : i = 0 ∨ f (i - 1) = false) (hjn : j = n ∨ f j = true) :
    i ≤ sort.searchLoop f i j ∧ sort.searchLoop f i j ≤ j ∧
      (sort.searchLoop f i j = 0 ∨ f (sort.searchLoop f i j - 1) = false) ∧
      (sort.searchLoop f i j = n ∨ f (sort.searchLoop f i j) = true) := by
  induction i, j using sort.searchLoop.induct f with
  | case1 i j hlt h hf ih =>
    have hh : h = (i + j) / 2 := rfl
    rw [sort.searchLoop, if_pos hlt, if_pos hf, ← hh]
    have := ih (by omega) hj (.inr (by simpa using hf)) hjn
    exact ⟨by omega, this.2.1, this.2.2⟩
  | case2 i j hlt h hf ih =>
    have hh : h = (i + j) / 2 := rfl
    rw [sort.searchLoop, if_pos hlt, if_neg hf, ← hh]
    have := ih (by omega) (by omega) hi (.inr (by simpa using hf))
    exact ⟨this.1, by omega, this.2.2⟩
  | case3 i j hge =>
    rw [sort.searchLoop, if_neg hge]
    obtain rfl : i = j := by omega
    exact ⟨le_refl _, hij, hi, hjn⟩

/-- `sort.Search` returns an index in `[0, n]` just after a `false` and at a `true`, whatever
`f` is. -/
theorem search_spec (n : Nat) (f : Nat → Bool) :
    sort.Search n f ≤ n ∧ (sort.Search n f = 0 ∨ f (sort.Search n f - 1) = false) ∧
      (sort.Search n f = n ∨ f (sort.Search n f) = true) :=
  let h := searchLoop_spec f n 0 n (Nat.zero_le _) le_rfl (.inl rfl) (.inl rfl)
  ⟨h.2.1, h.2.2⟩

theorem search_pos {n : Nat} {f : Nat → Bool} (hn : 0 < n) (h0 : f 0 = false) :
    1 ≤ sort.Search n f := by
  rcases Nat.eq_zero_or_pos (sort.Search n f) with h | h
  · obtain ⟨-, -, h3⟩ := search_spec n f
    rw [h] at h3; rcases h3 with h3 | h3
    · omega
    · rw [h0] at h3; cases h3
  · exact h

theorem search_false_below {n : Nat} {f : Nat → Bool} (hmono : ∀ i j, i ≤ j → j < n → f i → f j)
    {i : Nat} (hi : i < sort.Search n f) : f i = false := by
  obtain ⟨h1, h2, -⟩ := search_spec n f
  rcases h2 with h2 | h2
  · omega
  · by_contra h
    have := hmono i (sort.Search n f - 1) (by omega) (by omega) (by simpa using h)
    rw [h2] at this; cases this

/-! ## `mergepgids` -/

/-- `copy(dst, src)`: the first `min(len(dst), len(src))` elements of `dst` replaced by `src`'s. -/
def copy (dst src : List Nat) : List Nat := src.take dst.length ++ dst.drop src.length

/-- The variables of `mergepgids`'s loop. -/
structure MergeState where
  merged : List Nat
  lead : List Nat
  follow : List Nat

inductive MergeStep where
  | panic (msg : String)
  | exit (merged follow : List Nat)
  | next (st : MergeState)

/-- `n`: `sort.Search` for the first id of `lead` above `follow[0] = f0`. -/
def MergeState.cut (st : MergeState) (f0 : Nat) : Nat :=
  sort.Search st.lead.length fun i => st.lead.getD i 0 > f0

/-- The loop body, entered with `len(lead) > 0`: merge the prefix of `lead` ahead of
`follow[0]`, then break or swap the slices. -/
def mergeStep (st : MergeState) : MergeStep :=
  match st.follow with
  | [] => .panic "runtime error: index out of range [0] with length 0"
  | f0 :: _ =>
    if st.cut f0 ≥ st.lead.length then .exit (st.merged ++ st.lead.take (st.cut f0)) st.follow
    else .next ⟨st.merged ++ st.lead.take (st.cut f0), st.follow, st.lead.drop (st.cut f0)⟩

/-- `for len(lead) > 0 { ... }`, run for at most `fuel` iterations (`none` past that); it ends
with `merged` and `follow`. -/
def mergeLoop : Nat → MergeState → Option (Except String (List Nat × List Nat))
  | 0, _ => none
  | fuel + 1, st =>
    if 0 < st.lead.length then
      match mergeStep st with
      | .panic msg => some (.error msg)
      | .exit merged follow => some (.ok (merged, follow))
      | .next st' => mergeLoop fuel st'
    else some (.ok (st.merged, st.follow))

/-- The loop's start: `lead` is the slice with the lower first id. -/
def mergeInit (a b : List Nat) : MergeState :=
  if b.getD 0 0 < a.getD 0 0 then ⟨[], b, a⟩ else ⟨[], a, b⟩

/-- `mergepgids(dst, a, b)`: `dst` afterwards (the appends write into `dst`'s array), `.error`
for the length panic, and `none` if the loop were still going after `len(a) + len(b)`
iterations. -/
def mergepgids (dst a b : List Nat) : Option (Except String (List Nat)) :=
  if dst.length < a.length + b.length then
    some (.error ("mergepgids bad len " ++ toString dst.length ++ " < " ++ toString a.length ++
      " + " ++ toString b.length))
  else if a.length = 0 then some (.ok (copy dst b))
  else if b.length = 0 then some (.ok (copy dst a))
  else (mergeLoop (a.length + b.length) (mergeInit a b)).map fun r =>
    r.map fun (merged, follow) => copy dst (merged ++ follow)

/-- `pgids.merge(b)`: the other slice when one is empty, else a fresh `mergepgids`. -/
def Pgids.merge (a b : List Nat) : Option (Except String (List Nat)) :=
  if a.length = 0 then some (.ok b)
  else if b.length = 0 then some (.ok a)
  else mergepgids (List.replicate (a.length + b.length) 0) a b

/-! ## The loop invariant -/

/-- On entry to an iteration: both slices are nonempty, `lead[0] <= follow[0]`, and together
with `merged` they hold exactly the ids of `a ++ b`. -/
def MergeState.Inv (a b : List Nat) : MergeState → Prop
  | ⟨m, l0 :: ls, f0 :: fs⟩ => l0 ≤ f0 ∧ List.Perm (m ++ (l0 :: ls) ++ (f0 :: fs)) (a ++ b)
  | _ => False

/-- With sorted inputs: `merged` stays below both slices, and each slice is sorted. -/
def MergeState.Sorted (st : MergeState) : Prop :=
  (st.merged ++ st.lead).Pairwise (· ≤ ·) ∧ (st.merged ++ st.follow).Pairwise (· ≤ ·)

def MergeState.size (st : MergeState) : Nat := st.lead.length + st.follow.length

theorem mergeInit_inv {a b : List Nat} (ha : a ≠ []) (hb : b ≠ []) : (mergeInit a b).Inv a b := by
  obtain ⟨a0, as, rfl⟩ := List.exists_cons_of_ne_nil ha
  obtain ⟨b0, bs, rfl⟩ := List.exists_cons_of_ne_nil hb
  unfold mergeInit
  split <;> simp only [MergeState.Inv, List.nil_append, List.getD_cons_zero] at *
  · exact ⟨by omega, List.perm_append_comm⟩
  · exact ⟨by omega, List.Perm.refl _⟩

theorem mergeInit_sorted {a b : List Nat} (ha : a.Pairwise (· ≤ ·)) (hb : b.Pairwise (· ≤ ·)) :
    (mergeInit a b).Sorted := by
  unfold mergeInit; split <;> exact ⟨by simpa, by simpa⟩

theorem mergeInit_size (a b : List Nat) : (mergeInit a b).size = a.length + b.length := by
  unfold mergeInit MergeState.size; split <;> simp only; omega

/-- One iteration from an invariant state: `sort.Search` returns `n >= 1`, and the loop either
breaks with all of `lead` merged or swaps into a state that keeps the invariant, now with
`lead[0] < follow[0]`, at least one more id merged and a smaller measure. -/
theorem mergeStep_inv {a b : List Nat} {st : MergeState} (h : st.Inv a b) :
    ∃ f0 fs, st.follow = f0 :: fs ∧ 1 ≤ st.cut f0 ∧
      (mergeStep st = .exit (st.merged ++ st.lead) st.follow ∨
        ∃ st', mergeStep st = .next st' ∧ st'.Inv a b ∧ st'.lead.headD 0 < st'.follow.headD 0 ∧
          st.merged.length < st'.merged.length ∧ st'.size < st.size) := by
  obtain ⟨m, _ | ⟨l0, ls⟩, _ | ⟨f0, fs⟩⟩ := st <;> simp only [MergeState.Inv] at h
  obtain ⟨hle, hperm⟩ := h
  obtain ⟨hn, -, hcut⟩ := search_spec (l0 :: ls).length fun i => (l0 :: ls).getD i 0 > f0
  have hpos : 1 ≤ MergeState.cut ⟨m, l0 :: ls, f0 :: fs⟩ f0 :=
    search_pos (by simp) (by simpa using hle)
  refine ⟨f0, fs, rfl, hpos, ?_⟩
  simp only [mergeStep, MergeState.cut] at hpos hn hcut ⊢
  generalize sort.Search _ _ = n at hpos hn hcut ⊢
  by_cases hlen : (l0 :: ls).length ≤ n
  · exact .inl (by rw [if_pos hlen, List.take_of_length_le hlen])
  · right
    rw [if_neg hlen]
    have hgt := hcut.resolve_left (by omega)
    rw [List.getD_eq_getElem _ _ (Nat.lt_of_not_le hlen), decide_eq_true_eq] at hgt
    have hdrop := List.drop_eq_getElem_cons (Nat.lt_of_not_le hlen)
    refine ⟨_, rfl, ?_, ?_, ?_, ?_⟩
    · simp only [MergeState.Inv, hdrop]
      refine ⟨hgt.le, List.Perm.trans ?_ hperm⟩
      rw [← hdrop, List.append_assoc, List.append_assoc, List.append_assoc]
      refine List.Perm.append_left _ ?_
      refine (List.Perm.append_left _ List.perm_append_comm).trans ?_
      rw [← List.append_assoc, List.take_append_drop]
    · simpa only [hdrop] using hgt
    · simp only [List.length_append, List.length_take]; omega
    · simp only [MergeState.size, List.length_drop]; omega

theorem MergeState.Inv.perm {a b : List Nat} {st : MergeState} (h : st.Inv a b) :
    List.Perm (st.merged ++ st.lead ++ st.follow) (a ++ b) ∧ 0 < st.lead.length ∧
      0 < st.follow.length := by
  obtain ⟨m, _ | ⟨l0, ls⟩, _ | ⟨f0, fs⟩⟩ := st <;> simp only [MergeState.Inv] at h
  exact ⟨h.2, by simp, by simp⟩

theorem take_cut_le {st : MergeState} {f0 : Nat} (hs : st.lead.Pairwise (· ≤ ·)) :
    ∀ x ∈ st.lead.take (st.cut f0), x ≤ f0 := by
  intro x hx
  obtain ⟨i, hi, rfl⟩ := List.mem_take_iff_getElem.1 hx
  have hmono : ∀ i j, i ≤ j → j < st.lead.length →
      decide (st.lead.getD i 0 > f0) = true → decide (st.lead.getD j 0 > f0) = true := by
    intro i j hij hj hfi
    rw [List.getD_eq_getElem _ _ (by omega), decide_eq_true_eq] at hfi
    rw [List.getD_eq_getElem _ _ hj, decide_eq_true_eq]
    rcases Nat.eq_or_lt_of_le hij with rfl | hlt
    · exact hfi
    · exact Nat.lt_of_lt_of_le hfi (List.pairwise_iff_getElem.1 hs i j _ hj hlt)
  have := @search_false_below st.lead.length _ hmono i (by simp only [MergeState.cut] at hi ⊢; omega)
  rwa [List.getD_eq_getElem _ _ (by omega), decide_eq_false_iff_not, not_lt] at this

/-- With sorted inputs every iteration keeps `merged` sorted and below both slices, and the
loop breaks with a sorted `merged ++ follow`. -/
theorem mergeStep_sorted {st : MergeState} (hs : st.Sorted) :
    (∀ m f, mergeStep st = .exit m f → (m ++ f).Pairwise (· ≤ ·)) ∧
      ∀ st', mergeStep st = .next st' → st'.Sorted := by
  obtain ⟨m, lead, _ | ⟨f0, fs⟩⟩ := st
  · simp [mergeStep]
  obtain ⟨hl, hf⟩ := hs
  have hcut := @take_cut_le ⟨m, lead, f0 :: fs⟩ f0 (List.pairwise_append.1 hl).2.1
  simp only [mergeStep]
  generalize MergeState.cut _ _ = n at hcut ⊢
  have h1 : (m ++ lead.take n).Pairwise (· ≤ ·) :=
    hl.sublist ((List.take_sublist _ _).append_left m)
  have hf' := List.pairwise_append.1 hf
  have h2 : (m ++ lead.take n ++ f0 :: fs).Pairwise (· ≤ ·) := by
    refine List.pairwise_append.2 ⟨h1, hf'.2.1, fun x hx y hy => ?_⟩
    rcases List.mem_append.1 hx with hx | hx
    · exact hf'.2.2 x hx y hy
    · have hy' : f0 ≤ y := by
        rcases List.mem_cons.1 hy with rfl | hy
        · exact le_rfl
        · exact List.rel_of_pairwise_cons hf'.2.1 hy
      exact (hcut x hx).trans hy'
  split
  · exact ⟨fun m' f' h => (by cases h; exact h2), fun st' h => (by cases h)⟩
  · refine ⟨fun m' f' h => (by cases h), fun st' h => ?_⟩
    cases h
    refine ⟨h2, ?_⟩
    rw [List.append_assoc, List.take_append_drop]
    exact hl

/-- From an invariant state, a bound of `len(lead) + len(follow)` iterations is enough: the loop
ends with a permutation of `a ++ b`, sorted when the state is. -/
theorem mergeLoop_spec {a b : List Nat} :
    ∀ (fuel : Nat) (st : MergeState), st.Inv a b → st.size ≤ fuel →
      ∃ m f, mergeLoop fuel st = some (.ok (m, f)) ∧ List.Perm (m ++ f) (a ++ b) ∧
        (st.Sorted → (m ++ f).Pairwise (· ≤ ·))
  | 0, st, h, hs => by
    have := h.perm; simp only [MergeState.size] at hs; omega
  | fuel + 1, st, h, hs => by
    obtain ⟨hperm, hlead, -⟩ := h.perm
    obtain ⟨f0, fs, -, -, hstep⟩ := mergeStep_inv h
    rw [mergeLoop, if_pos hlead]
    rcases hstep with hex | ⟨st', hnext, hinv, -, -, hsize⟩
    · rw [hex]
      exact ⟨_, _, rfl, hperm, fun hs => (mergeStep_sorted hs).1 _ _ hex⟩
    · rw [hnext]
      obtain ⟨m, f, h1, h2, h3⟩ := mergeLoop_spec fuel st' hinv (by omega)
      exact ⟨m, f, h1, h2, fun hs => h3 ((mergeStep_sorted hs).2 _ hnext)⟩

/-- The states in which the loop enters an iteration, starting from `st₀`. -/
inductive MergeReach (st₀ : MergeState) : MergeState → Prop
  | start : MergeReach st₀ st₀
  | next {st st' : MergeState} : MergeReach st₀ st → mergeStep st = .next st' → MergeReach st₀ st'

theorem MergeReach.inv {a b : List Nat} {st : MergeState} (h₀ : (mergeInit a b).Inv a b)
    (h : MergeReach (mergeInit a b) st) : st.Inv a b := by
  induction h with
  | start => exact h₀
  | next _ hn ih =>
    obtain ⟨_, _, _, _, hex | ⟨st', hnext, hinv, -⟩⟩ := mergeStep_inv ih
    · rw [hex] at hn; cases hn
    · rw [hnext] at hn; cases hn; exact hinv

/-- The lead/follow loop terminates for all inputs, sorted or not: on entry to every iteration
`lead[0] <= follow[0]`, so `sort.Search` returns `n >= 1`; every swap leaves
`lead[0] < follow[0]`, moves at least one id into `merged` and shrinks
`len(lead) + len(follow)`; so the loop breaks within `len(a) + len(b)` iterations. -/
theorem mergeLoop_terminates (a b : List Nat) (ha : a ≠ []) (hb : b ≠ []) :
    (∀ st, MergeReach (mergeInit a b) st →
      ∃ l0 ls f0 fs, st.lead = l0 :: ls ∧ st.follow = f0 :: fs ∧ l0 ≤ f0 ∧ 1 ≤ st.cut f0 ∧
        ∀ st', mergeStep st = .next st' →
          st'.lead.headD 0 < st'.follow.headD 0 ∧ st.merged.length < st'.merged.length ∧
            st'.size < st.size) ∧
    ∃ r, mergeLoop (a.length + b.length) (mergeInit a b) = some (.ok r) := by
  have h₀ := mergeInit_inv ha hb
  refine ⟨fun st hst => ?_, ?_⟩
  · have hinv := hst.inv h₀
    obtain ⟨f0, fs, hfol, hpos, hstep⟩ := mergeStep_inv hinv
    obtain ⟨m, _ | ⟨l0, ls⟩, follow⟩ := st
    · simp only [MergeState.Inv] at hinv
    subst hfol
    refine ⟨l0, ls, f0, fs, rfl, rfl, hinv.1, hpos, fun st' hnext => ?_⟩
    rcases hstep with hex | ⟨st'', hn, -, hlt, hlen, hsize⟩
    · rw [hex] at hnext; cases hnext
    · rw [hn] at hnext; cases hnext; exact ⟨hlt, hlen, hsize⟩
  · obtain ⟨m, f, h, -⟩ := mergeLoop_spec _ _ h₀ (mergeInit_size a b).le
    exact ⟨_, h⟩

theorem mergeLoop_terminates_small :
    [5] ≠ [] ∧ [1, 7] ≠ [] ∧
    (∀ st, MergeReach (mergeInit [5] [1, 7]) st →
      ∃ l0 ls f0 fs, st.lead = l0 :: ls ∧ st.follow = f0 :: fs ∧ l0 ≤ f0 ∧ 1 ≤ st.cut f0 ∧
        ∀ st', mergeStep st = .next st' →
          st'.lead.headD 0 < st'.follow.headD 0 ∧ st.merged.length < st'.merged.length ∧
            st'.size < st.size) ∧
    ∃ r, mergeLoop ([5].length + [1, 7].length) (mergeInit [5] [1, 7]) = some (.ok r) :=
  ⟨by decide, by decide, mergeLoop_terminates [5] [1, 7] (by decide) (by decide)⟩

/-! ## What `mergepgids` and `merge` return -/

theorem copy_of_le {dst src : List Nat} (h : src.length ≤ dst.length) :
    copy dst src = src ++ dst.drop src.length := by
  rw [copy, List.take_of_length_le h]

/-- `mergepgids` leaves a permutation `r` of `a ++ b` in `dst[:len(a)+len(b)]`, with equal ids
of the two sides both kept, and the rest of `dst` as it was; `r` is sorted when `a` and `b` are;
and `merge(a, b)` returns `r`, which is the other input when one is empty. -/
theorem mergepgids_perm (dst a b : List Nat) (h : a.length + b.length ≤ dst.length) :
    ∃ r, mergepgids dst a b = some (.ok (r ++ dst.drop (a.length + b.length))) ∧
      List.Perm r (a ++ b) ∧ (a.Pairwise (· ≤ ·) → b.Pairwise (· ≤ ·) → r.Pairwise (· ≤ ·)) ∧
      Pgids.merge a b = some (.ok r) ∧ (a = [] → r = b) ∧ (b = [] → r = a) := by
  by_cases ha : a = []
  · subst ha
    refine ⟨b, ?_, by simp, fun _ hb => hb, by simp [Pgids.merge], fun _ => rfl, fun hb => hb⟩
    simp only [List.length_nil, Nat.zero_add] at h ⊢
    simp [mergepgids, copy_of_le h, Nat.not_lt.2 h]
  by_cases hb : b = []
  · subst hb
    refine ⟨a, ?_, by simp, fun ha _ => ha, by simp [Pgids.merge, ha], fun h => absurd h ha,
      fun _ => rfl⟩
    simp only [List.length_nil, Nat.add_zero] at h ⊢
    simp [mergepgids, copy_of_le h, Nat.not_lt.2 h, ha]
  obtain ⟨m, f, hloop, hperm, hsorted⟩ :=
    mergeLoop_spec _ _ (mergeInit_inv ha hb) (mergeInit_size a b).le
  have hlen : (m ++ f).length = a.length + b.length := by simpa using hperm.length_eq
  have hmerge : ∀ d : List Nat, a.length + b.length ≤ d.length →
      mergepgids d a b = some (.ok (m ++ f ++ d.drop (a.length + b.length))) := by
    intro d hd
    rw [mergepgids, if_neg (Nat.not_lt.2 hd), if_neg (by simpa using ha),
      if_neg (by simpa using hb), hloop]
    simp only [Option.map_some', Except.map, copy_of_le (hlen ▸ hd), hlen]
  refine ⟨m ++ f, hmerge dst h, hperm, fun hsa hsb => hsorted (mergeInit_sorted hsa hsb), ?_,
    fun h => absurd h ha, fun h => absurd h hb⟩
  rw [Pgids.merge, if_neg (by simpa using ha), if_neg (by simpa using hb),
    hmerge _ (by simp)]
  simp

example : Pgids.merge [1, 4, 9] [2, 3, 10] = some (.ok [1, 2, 3, 4, 9, 10]) := by
  simp +decide [Pgids.merge, mergepgids, mergeLoop, mergeInit, mergeStep, MergeState.cut,
    sort.Search, sort.searchLoop, copy, Except.map]

theorem mergepgids_perm_small :
    [4, 9].length + [4].length ≤ [0, 0, 0, 8].length ∧
    ∃ r, mergepgids [0, 0, 0, 8] [4, 9] [4] =
        some (.ok (r ++ [0, 0, 0, 8].drop ([4, 9].length + [4].length))) ∧
      List.Perm r ([4, 9] ++ [4]) ∧
      ([4, 9].Pairwise (· ≤ ·) → [4].Pairwise (· ≤ ·) → r.Pairwise (· ≤ ·)) ∧
      Pgids.merge [4, 9] [4] = some (.ok r) ∧ ([4, 9] = [] → r = [4]) ∧ ([4] = [] → r = [4, 9]) :=
  ⟨by decide, mergepgids_perm _ _ _ (by decide)⟩

end Bbolt
