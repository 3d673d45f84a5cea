/-
The page walk of `tx.go` and the `Page` lookup. `tx.page` serves a page from the dirty cache or
the map and traps one that is not the page asked for (`fastCheck`); `forEachPage` calls `fn` on a
page and then recurses into every child a branch page names, with the stack of ids that led
there. `forEachPageInternal` keeps no set of visited pages, so on a page graph with a cycle it
never returns: the walk is modelled with fuel, one unit a level, and once it stops short of the
fuel more fuel changes nothing. It stops when the child relation is well founded from the root,
it returns without a panic only then, and a self-referencing branch page makes it run forever. A
walk that returns calls `fn` on exactly the paths of the child relation from the root.
-/
import Bbolt.Tx.Basic

namespace Bbolt

/-! ## `tx.page` -/

/-- `tx.page(id)`: the dirty copy when the cache has one, otherwise `db.page(id)`; `fastCheck(id)`
panics on either unless it is page `id` with exactly one type flag. -/
def Tx.page (tx : Tx) (db : DB) (id : Nat) : Except String Page :=
  let p := (tx.pages.find? id).getD (db.page id)
  match p.fastCheck id with
  | .error msg => .error msg
  | .ok () => .ok p

/-! ## `forEachPage` -/

/-- One call `fn(p, len(pgidstack)-1, pgidstack)`. Go's `append` shares one backing array between
siblings, so a stack `fn` keeps after it returns may change later; this is the stack at the call. -/
structure Visit where
  page : Page
  depth : Nat
  stack : List Nat

/-- Why a walk stopped before returning: a `fastCheck` panic, or, in the bounded model only, no
fuel left. -/
inductive Stop where
  | panic (msg : String)
  | fuel
  deriving DecidableEq

/-- The `for` loop over a branch page's elements: `walk` of the stack extended by each element's
`pgid` in turn, stopping at the first child whose walk stops. -/
def forEachChild (walk : List Nat → List Visit × Option Stop) (pgidstack : List Nat) (p : Page) :
    List Nat → List Visit × Option Stop
  | [] => ([], none)
  | i :: is =>
    match walk (pgidstack ++ [(p.branchPageElement i).pgid]) with
    | (calls, none) =>
      let r := forEachChild walk pgidstack p is
      (calls ++ r.1, r.2)
    | (calls, some stop) => (calls, some stop)

/-- `forEachPageInternal(pgidstack, fn)` with `fuel` levels to go: the calls of `fn` it makes, in
order, and how it stops (`none`: it returns). The stack is never empty. -/
def forEachPageInternal (tx : Tx) (db : DB) : Nat → List Nat → List Visit × Option Stop
  | 0, _ => ([], some .fuel)
  | fuel + 1, pgidstack =>
    match tx.page db (pgidstack.getLastD 0) with
    | .error msg => ([], some (.panic msg))
    | .ok p =>
      let r := if p.flags &&& branchPageFlag ≠ 0 then
          forEachChild (forEachPageInternal tx db fuel) pgidstack p (List.range p.count)
        else ([], none)
      (⟨p, pgidstack.length - 1, pgidstack⟩ :: r.1, r.2)

/-- `forEachPage(pgidnum, fn)`: the walk from the one-element stack. -/
def forEachPage (tx : Tx) (db : DB) (fuel pgidnum : Nat) : List Visit × Option Stop :=
  forEachPageInternal tx db fuel [pgidnum]

@[simp] theorem forEachChild_singleton (walk : List Nat → List Visit × Option Stop)
    (stack : List Nat) (p : Page) (i : Nat) :
    forEachChild walk stack p [i] = walk (stack ++ [(p.branchPageElement i).pgid]) := by
  simp only [forEachChild]
  rcases walk _ with ⟨calls, _ | stop⟩ <;> simp

def Finished (r : List Visit × Option Stop) : Prop := r.2 ≠ some .fuel

section Steps

variable {tx : Tx} {db : DB} {n : Nat} {stack : List Nat}

theorem walk_panic {msg : String} (h : tx.page db (stack.getLastD 0) = .error msg) :
    forEachPageInternal tx db (n + 1) stack = ([], some (.panic msg)) := by
  simp only [forEachPageInternal, h]

theorem walk_leaf {p : Page} (h : tx.page db (stack.getLastD 0) = .ok p)
    (hb : p.flags &&& branchPageFlag = 0) :
    forEachPageInternal tx db (n + 1) stack = ([⟨p, stack.length - 1, stack⟩], none) := by
  simp only [forEachPageInternal, h, hb, ne_eq, not_true_eq_false, if_false]

theorem walk_branch {p : Page} (h : tx.page db (stack.getLastD 0) = .ok p)
    (hb : p.flags &&& branchPageFlag ≠ 0) :
    forEachPageInternal tx db (n + 1) stack =
      let r := forEachChild (forEachPageInternal tx db n) stack p (List.range p.count)
      (⟨p, stack.length - 1, stack⟩ :: r.1, r.2) := by
  simp only [forEachPageInternal, h, hb, ne_eq, not_false_eq_true, if_true]

theorem walk_succ (tx : Tx) (db : DB) (n : Nat) (stack : List Nat) :
    (∃ msg, tx.page db (stack.getLastD 0) = .error msg ∧
      forEachPageInternal tx db (n + 1) stack = ([], some (.panic msg))) ∨
    ∃ p, tx.page db (stack.getLastD 0) = .ok p ∧
      (p.flags &&& branchPageFlag = 0 ∧
        forEachPageInternal tx db (n + 1) stack = ([⟨p, stack.length - 1, stack⟩], none) ∨
       p.flags &&& branchPageFlag ≠ 0 ∧
        forEachPageInternal tx db (n + 1) stack =
          let r := forEachChild (forEachPageInternal tx db n) stack p (List.range p.count)
          (⟨p, stack.length - 1, stack⟩ :: r.1, r.2)) := by
  cases hp : tx.page db (stack.getLastD 0) with
  | error msg => exact .inl ⟨msg, rfl, walk_panic hp⟩
  | ok p =>
    refine .inr ⟨p, rfl, ?_⟩
    by_cases hb : p.flags &&& branchPageFlag = 0
    · exact .inl ⟨hb, walk_leaf hp hb⟩
    · exact .inr ⟨hb, walk_branch hp hb⟩

end Steps

/-! ## Fuel is only a bound

A walk that stops short of its fuel gives the same calls and the same end with any more fuel, so
"the walk terminates" is "some fuel finishes it". -/

section Fuel

variable {tx : Tx} {db : DB}

theorem forEachChild_stable {walk walk' : List Nat → List Visit × Option Stop} {stack : List Nat}
    {p : Page} (h : ∀ s, Finished (walk s) → walk' s = walk s) :
    ∀ is, Finished (forEachChild walk stack p is) →
      forEachChild walk' stack p is = forEachChild walk stack p is
  | [], _ => rfl
  | i :: is, hf => by
    simp only [forEachChild] at hf ⊢
    rcases hw : walk (stack ++ [(p.branchPageElement i).pgid]) with ⟨calls, _ | stop⟩
    · rw [hw] at hf
      rw [h _ (by simp [Finished, hw]), hw, forEachChild_stable h is hf]
    · rw [hw] at hf
      rw [h _ (by simpa [Finished, hw] using hf), hw]

theorem walk_succ_of_finished :
    ∀ n stack, Finished (forEachPageInternal tx db n stack) →
      forEachPageInternal tx db (n + 1) stack = forEachPageInternal tx db n stack
  | 0, _, hf => absurd rfl hf
  | n + 1, stack, hf => by
    rcases walk_succ tx db n stack with ⟨msg, hp, _⟩ | ⟨p, hp, ⟨hb, _⟩ | ⟨hb, hw⟩⟩
    · rw [walk_panic hp, walk_panic hp]
    · rw [walk_leaf hp hb, walk_leaf hp hb]
    · rw [hw] at hf
      rw [walk_branch hp hb, hw,
        forEachChild_stable (fun s hs => walk_succ_of_finished n s hs) _ hf]

/-- Fuel is a bound and nothing else: a finished walk is the walk with any more fuel. -/
theorem walk_mono {n m : Nat} {stack : List Nat} (hf : Finished (forEachPageInternal tx db n stack))
    (hnm : n ≤ m) : forEachPageInternal tx db m stack = forEachPageInternal tx db n stack := by
  induction m, hnm using Nat.le_induction with
  | base => rfl
  | succ m _ ih => rw [walk_succ_of_finished m stack (ih ▸ hf), ih]

theorem exists_fuel_forall {f : Nat → List Nat} :
    ∀ l : List Nat, (∀ i ∈ l, ∃ n, Finished (forEachPageInternal tx db n (f i))) →
      ∃ N, ∀ i ∈ l, Finished (forEachPageInternal tx db N (f i))
  | [], _ => ⟨0, by simp⟩
  | i :: l, h => by
    obtain ⟨n, hn⟩ := h i (List.mem_cons_self i l)
    obtain ⟨N, hN⟩ := exists_fuel_forall l fun j hj => h j (List.mem_cons_of_mem i hj)
    refine ⟨max n N, fun j hj => ?_⟩
    rcases List.mem_cons.1 hj with rfl | hj
    · rwa [walk_mono hn (le_max_left n N)]
    · rw [walk_mono (hN j hj) (le_max_right n N)]; exact hN j hj

theorem forEachChild_finished {walk : List Nat → List Visit × Option Stop} {stack : List Nat}
    {p : Page} : ∀ is, (∀ i ∈ is, Finished (walk (stack ++ [(p.branchPageElement i).pgid]))) →
      Finished (forEachChild walk stack p is)
  | [], _ => by simp [Finished, forEachChild]
  | i :: is, h => by
    have hi := h i (List.mem_cons_self i is)
    simp only [forEachChild]
    rcases hw : walk (stack ++ [(p.branchPageElement i).pgid]) with ⟨calls, _ | stop⟩
    · exact forEachChild_finished is fun j hj => h j (List.mem_cons_of_mem i hj)
    · rw [hw] at hi; exact hi

end Fuel

/-! ## The child relation and termination -/

/-- `c` is a child the walk descends to from `id`: `tx.page(id)` serves a branch page one of whose
first `count` elements names `c`. -/
def Tx.Child (tx : Tx) (db : DB) (c id : Nat) : Prop :=
  ∃ p, tx.page db id = .ok p ∧ p.flags &&& branchPageFlag ≠ 0 ∧
    ∃ i < p.count, (p.branchPageElement i).pgid = c

/-- A stack the walk can build from `root`: it starts at `root` and each id is a child of the one
before it. -/
def Tx.Path (tx : Tx) (db : DB) (root : Nat) (stack : List Nat) : Prop :=
  stack.head? = some root ∧ stack.Chain' fun a b => Tx.Child tx db b a

theorem Tx.Path.push {tx : Tx} {db : DB} {root c : Nat} {stack : List Nat}
    (h : Tx.Path tx db root stack) (hc : Tx.Child tx db c (stack.getLastD 0)) :
    Tx.Path tx db root (stack ++ [c]) := by
  obtain ⟨hh, hch⟩ := h
  refine ⟨by rw [List.head?_append, hh]; rfl, hch.append (List.chain'_singleton c) fun x hx y hy => ?_⟩
  obtain rfl : y = c := (Option.some_inj.1 (Option.mem_def.1 hy)).symm
  rwa [List.getLastD_eq_getLast?, Option.mem_def.1 hx, Option.getD_some] at hc

/-- From a page whose descendants cannot go on forever, some fuel finishes the walk, whatever
stack led to it. -/
theorem walk_finishes_of_acc {tx : Tx} {db : DB} {id : Nat} (hacc : Acc (Tx.Child tx db) id) :
    ∀ stack, stack.getLastD 0 = id → ∃ n, Finished (forEachPageInternal tx db n stack) := by
  induction hacc with
  | intro id _ ih =>
    intro stack hs
    subst hs
    rcases walk_succ tx db 0 stack with ⟨msg, hp, _⟩ | ⟨p, hp, ⟨hb, _⟩ | ⟨hb, -⟩⟩
    · exact ⟨1, by simp [Finished, walk_panic hp]⟩
    · exact ⟨1, by simp [Finished, walk_leaf hp hb]⟩
    · have hchild : ∀ i ∈ List.range p.count, ∃ n, Finished (forEachPageInternal tx db n
          (stack ++ [(p.branchPageElement i).pgid])) := fun i hi =>
        ih _ ⟨p, hp, hb, i, List.mem_range.1 hi, rfl⟩ _ (List.getLastD_concat _ _ _)
      obtain ⟨N, hN⟩ := exists_fuel_forall _ hchild
      exact ⟨N + 1, by
        simpa [Finished, walk_branch hp hb] using forEachChild_finished _ hN⟩

theorem forEachChild_returns {walk : List Nat → List Visit × Option Stop} {stack : List Nat}
    {p : Page} : ∀ {is}, (forEachChild walk stack p is).2 = none →
      ∀ i ∈ is, (walk (stack ++ [(p.branchPageElement i).pgid])).2 = none ∧
        ∀ v ∈ (walk (stack ++ [(p.branchPageElement i).pgid])).1, v ∈ (forEachChild walk stack p is).1
  | [], _ => by simp
  | i :: is, h => by
    simp only [forEachChild] at h ⊢
    rcases hw : walk (stack ++ [(p.branchPageElement i).pgid]) with ⟨calls, _ | stop⟩ <;>
      rw [hw] at h <;> dsimp only at h ⊢
    · intro j hj
      rcases List.mem_cons.1 hj with rfl | hj
      · exact ⟨by rw [hw], fun v hv => List.mem_append_left _ (by rwa [hw] at hv)⟩
      · obtain ⟨hj1, hj2⟩ := forEachChild_returns h j hj
        exact ⟨hj1, fun v hv => List.mem_append_right _ (hj2 v hv)⟩
    · cases h

/-- A walk that returns (no panic, fuel to spare) has descended through a well-founded part of the
page graph: the child relation is well founded from every stack it was started on. -/
theorem acc_of_walk_returns {tx : Tx} {db : DB} :
    ∀ n stack, (forEachPageInternal tx db n stack).2 = none → Acc (Tx.Child tx db) (stack.getLastD 0)
  | 0, _, h => by cases h
  | n + 1, stack, h => by
    rcases walk_succ tx db n stack with ⟨msg, -, hw⟩ | ⟨p, hp, ⟨hb, -⟩ | ⟨hb, hw⟩⟩
    · rw [hw] at h; cases h
    · refine ⟨_, fun c ⟨q, hq, hqb, _⟩ => ?_⟩
      rw [hp] at hq; cases hq; exact absurd hb hqb
    · rw [hw] at h
      refine ⟨_, fun c ⟨q, hq, _, i, hi, hc⟩ => ?_⟩
      rw [hp] at hq; cases hq
      have hall := (forEachChild_returns h i (List.mem_range.2 hi)).1
      simpa [hc, List.getLastD_concat] using acc_of_walk_returns n _ hall

/-! ## Two stores

Readers with no dirty pages on `sampleDB`'s map of empty leaves, with page 3 replaced by a branch
page whose one element names a single-byte id: page 4, a leaf, or page 3 itself. -/

/-- A branch page `id` with one element naming `child`; bytes 24 to 31 are the element's `pgid`. -/
def branchTo (id child : Nat) : Page :=
  ⟨id, branchPageFlag, 1, 0, fun a => if a = 24 then UInt8.ofNat child else 0⟩

def storeWith (p : Page) : DB :=
  { sampleDB with page := fun id => if id = p.id then p else sampleDB.page id }

def sampleReader : Tx := Tx.init false false ⟨3, 5, 1, 0⟩

theorem page_storeWith_branchTo (c id : Nat) :
    sampleReader.page (storeWith (branchTo 3 c)) id =
      .ok (if id = 3 then branchTo 3 c else sampleDB.page id) := by
  by_cases h : id = 3
  · subst h; rfl
  · simp [Tx.page, sampleReader, Tx.init, PageCache.find?, PageCache.empty, storeWith, branchTo, h,
      Page.fastCheck, sampleDB, fastCheckBits, leafPageFlag, freelistPageFlag]

theorem child_storeWith_branchTo {c x y : Nat} (hc : c < 256) :
    Tx.Child sampleReader (storeWith (branchTo 3 c)) x y ↔ y = 3 ∧ x = c := by
  simp only [Tx.Child, page_storeWith_branchTo, Except.ok.injEq, exists_eq_left']
  by_cases hy : y = 3
  · simp [hy, branchTo, branchPageFlag, Page.branchPageElement, readLE, pageHeaderSize,
      branchPageElementSize, UInt8.toNat_ofNat_of_lt (n := c) hc, eq_comm]
  · simp [hy, sampleDB, leafPageFlag, branchPageFlag]

def treeDB : DB := storeWith (branchTo 3 4)

theorem tree_walk_returns : (forEachPage sampleReader treeDB 2 3).2 = none := by decide

def loopDB : DB := storeWith (branchTo 3 3)

/-- `forEachPage` stops after finitely many calls of `fn` from every root whose descendants cannot
go on forever: some fuel finishes the walk (it returns, or a page panics), and any more fuel gives
the same calls and the same end. -/
theorem forEachPage_terminates (tx : Tx) (db : DB) (root : Nat) (hacc : Acc (Tx.Child tx db) root) :
    ∃ n, (forEachPage tx db n root).2 ≠ some .fuel ∧
      ∀ m, n ≤ m → forEachPage tx db m root = forEachPage tx db n root := by
  obtain ⟨n, hn⟩ := walk_finishes_of_acc hacc [root] rfl
  exact ⟨n, hn, fun m hm => walk_mono hn hm⟩

theorem forEachPage_terminates_tree : Acc (Tx.Child sampleReader treeDB) 3 ∧
    ∃ n, (forEachPage sampleReader treeDB n 3).2 ≠ some .fuel ∧
      ∀ m, n ≤ m → forEachPage sampleReader treeDB m 3 = forEachPage sampleReader treeDB n 3 :=
  have hleaf : Acc (Tx.Child sampleReader treeDB) 4 :=
    ⟨4, fun x h => absurd ((child_storeWith_branchTo (by decide)).1 h).1 (by decide)⟩
  have hacc : Acc (Tx.Child sampleReader treeDB) 3 :=
    ⟨3, fun x h => ((child_storeWith_branchTo (by decide)).1 h).2 ▸ hleaf⟩
  ⟨hacc, forEachPage_terminates sampleReader treeDB 3 hacc⟩

theorem loop_walk : ∀ n k, forEachPageInternal sampleReader loopDB n (List.replicate (k + 1) 3) =
    ((List.range n).map fun d => ⟨branchTo 3 3, k + d, List.replicate (k + d + 1) 3⟩, some .fuel)
  | 0, _ => rfl
  | n + 1, k => by
    have hp : sampleReader.page loopDB ((List.replicate (k + 1) 3).getLastD 0) = .ok (branchTo 3 3) := by
      simp [loopDB, page_storeWith_branchTo, List.getLastD_eq_getLast?, List.getLast?_replicate]
    rw [walk_branch hp (by decide)]
    have hstack : List.replicate (k + 1) 3 ++ [((branchTo 3 3).branchPageElement 0).pgid] =
        List.replicate (k + 1 + 1) 3 := by
      rw [List.replicate_succ' (k + 1)]; rfl
    show (_ :: (forEachChild _ _ _ [0]).1, (forEachChild _ _ _ [0]).2) = _
    rw [forEachChild_singleton, hstack, loop_walk n (k + 1), List.range_succ_eq_map]
    simp [Nat.add_assoc, Nat.add_comm 1]

/-- `forEachPage` does not terminate on every store that passes `fastCheck`: on `loopDB` every
page passes, page 3 is its own child, and with any fuel `n` the walk from page 3 has called `fn`
`n` times, on page 3 at depths `0` to `n - 1`, and wants more. -/
theorem forEachPage_self_loop :
    (∀ id, ∃ p, sampleReader.page loopDB id = .ok p) ∧ Tx.Child sampleReader loopDB 3 3 ∧
      ∀ n, forEachPage sampleReader loopDB n 3 =
        ((List.range n).map fun d => ⟨branchTo 3 3, d, List.replicate (d + 1) 3⟩, some .fuel) :=
  ⟨fun id => ⟨_, page_storeWith_branchTo 3 id⟩, (child_storeWith_branchTo (by decide)).2 ⟨rfl, rfl⟩,
    fun n => by simpa using loop_walk n 0⟩

/-! ## What each call of `fn` sees -/

theorem forEachChild_calls {walk : List Nat → List Visit × Option Stop} {stack : List Nat}
    {p : Page} {P : Visit → Prop} :
    ∀ is, (∀ i ∈ is, ∀ v ∈ (walk (stack ++ [(p.branchPageElement i).pgid])).1, P v) →
      ∀ v ∈ (forEachChild walk stack p is).1, P v
  | [], _ => by simp [forEachChild]
  | i :: is, h => by
    have hi := h i (List.mem_cons_self i is)
    simp only [forEachChild]
    rcases hw : walk (stack ++ [(p.branchPageElement i).pgid]) with ⟨calls, _ | stop⟩ <;>
      rw [hw] at hi
    · intro v hv
      rcases List.mem_append.1 hv with hv | hv
      · exact hi v hv
      · exact forEachChild_calls is (fun j hj => h j (List.mem_cons_of_mem i hj)) v hv
    · exact hi

/-- Every call of `fn` in a walk started on a path from `root` gets a path from `root`, its length
less one as the depth, and the page `tx.page` serves for the path's last id. -/
theorem walk_calls {tx : Tx} {db : DB} {root : Nat} :
    ∀ n stack, Tx.Path tx db root stack → ∀ v ∈ (forEachPageInternal tx db n stack).1,
      Tx.Path tx db root v.stack ∧ v.depth + 1 = v.stack.length ∧
        tx.page db (v.stack.getLastD 0) = .ok v.page
  | 0, _, _ => by simp [forEachPageInternal]
  | n + 1, stack, hs => by
    have hlen : stack.length - 1 + 1 = stack.length := by
      have : 0 < stack.length := List.length_pos.2 fun h => by simp [h, Tx.Path] at hs
      omega
    rcases walk_succ tx db n stack with ⟨msg, -, hw⟩ | ⟨p, hp, ⟨-, hw⟩ | ⟨hb, hw⟩⟩ <;>
      rw [hw] <;> intro v hv
    · cases hv
    · obtain rfl := List.mem_singleton.1 hv
      exact ⟨hs, hlen, hp⟩
    · rcases List.mem_cons.1 hv with rfl | hv
      · exact ⟨hs, hlen, hp⟩
      · refine forEachChild_calls _ (fun i hi => walk_calls n _ (hs.push ?_)) v hv
        exact ⟨p, hp, hb, i, List.mem_range.1 hi, rfl⟩

/-- A walk that returns makes a call on every path of the child relation that continues its
stack. -/
theorem walk_complete {tx : Tx} {db : DB} :
    ∀ n stack, (forEachPageInternal tx db n stack).2 = none →
      ∀ ext, List.Chain (fun a b => Tx.Child tx db b a) (stack.getLastD 0) ext →
        ∃ v ∈ (forEachPageInternal tx db n stack).1, v.stack = stack ++ ext
  | 0, _, h, _, _ => by cases h
  | n + 1, stack, h, ext, hext => by
    rcases walk_succ tx db n stack with ⟨msg, -, hw⟩ | ⟨p, hp, ⟨hb, hw⟩ | ⟨hb, hw⟩⟩ <;>
      rw [hw] at h ⊢
    · cases h
    · cases ext with
      | nil => exact ⟨_, List.mem_singleton_self _, (List.append_nil _).symm⟩
      | cons c ext =>
        obtain ⟨q, hq, hqb, -⟩ := (List.chain_cons.1 hext).1
        rw [hp] at hq; cases hq; exact absurd hb hqb
    · cases ext with
      | nil => exact ⟨_, List.mem_cons_self _ _, (List.append_nil _).symm⟩
      | cons c ext =>
        obtain ⟨⟨q, hq, -, i, hi, rfl⟩, hext⟩ := List.chain_cons.1 hext
        rw [hp] at hq; cases hq
        obtain ⟨hret, hsub⟩ := forEachChild_returns h i (List.mem_range.2 hi)
        obtain ⟨v, hv, hvs⟩ := walk_complete n _ hret ext (by rwa [List.getLastD_concat])
        exact ⟨v, List.mem_cons_of_mem _ (hsub v hv),
          by rw [hvs, List.append_assoc, List.singleton_append]⟩

/-- A walk from `root` that returns calls `fn` on exactly the paths of the child relation from
`root`: each call gets such a path as its stack, with the path's depth and the page `tx.page`
serves for its last id, and every such path is the stack of a call. -/
theorem forEachPage_visits (tx : Tx) (db : DB) (n root : Nat)
    (h : (forEachPage tx db n root).2 = none) :
    (∀ v ∈ (forEachPage tx db n root).1, Tx.Path tx db root v.stack ∧
      v.depth + 1 = v.stack.length ∧ tx.page db (v.stack.getLastD 0) = .ok v.page) ∧
    ∀ stack, Tx.Path tx db root stack → ∃ v ∈ (forEachPage tx db n root).1, v.stack = stack :=
  ⟨walk_calls n [root] ⟨rfl, List.chain'_singleton root⟩, fun _ ⟨hh, hch⟩ => by
    rw [List.eq_cons_of_mem_head? hh] at hch ⊢
    exact walk_complete n [root] h _ hch⟩

theorem forEachPage_visits_tree : (forEachPage sampleReader treeDB 2 3).2 = none ∧
    (∀ v ∈ (forEachPage sampleReader treeDB 2 3).1, Tx.Path sampleReader treeDB 3 v.stack ∧
      v.depth + 1 = v.stack.length ∧ sampleReader.page treeDB (v.stack.getLastD 0) = .ok v.page) ∧
    ∀ stack, Tx.Path sampleReader treeDB 3 stack →
      ∃ v ∈ (forEachPage sampleReader treeDB 2 3).1, v.stack = stack :=
  ⟨tree_walk_returns, forEachPage_visits sampleReader treeDB 2 3 tree_walk_returns⟩

/-- A walk from `root` that returns shows that no chain of child links from `root` goes on
forever: no branch element below `root` leads back to its own page or to an ancestor. With
`forEachPage_terminates`, the walk returns for some fuel exactly when this holds and no page
panics. -/
theorem forEachPage_acyclic (tx : Tx) (db : DB) (n root : Nat)
    (h : (forEachPage tx db n root).2 = none) : Acc (Tx.Child tx db) root :=
  acc_of_walk_returns n [root] h

theorem forEachPage_acyclic_tree :
    (forEachPage sampleReader treeDB 2 3).2 = none ∧ Acc (Tx.Child sampleReader treeDB) 3 :=
  ⟨tree_walk_returns, forEachPage_acyclic sampleReader treeDB 2 3 tree_walk_returns⟩

/-! ## `Page` -/

/-- `PageInfo`; its `Type` (a keyword in Lean) is `typ`. -/
structure PageInfo where
  ID : Int
  typ : String
  Count : Nat
  OverflowCount : Nat
  deriving DecidableEq, Repr

/-- `pgid(id)`: the `int` argument as a `uint64`. -/
def pgidOfInt (id : Int) : Nat := (id % 2 ^ 64).toNat

/-- `Page(id)`: what the map holds at `id` (neither the dirty cache nor `fastCheck` is consulted),
`nil` at or beyond the high water mark. -/
def Tx.Page (tx : Tx) (db : DB) (id : Int) : Except Err (Option PageInfo) :=
  if !tx.db then .error .ErrTxClosed
  else if pgidOfInt id ≥ tx.meta.pgid then .ok none
  else if !db.freelist then .error .ErrFreePagesNotLoaded
  else
    let p := db.page (pgidOfInt id)
    .ok (some
      { ID := id
        Count := p.count
        OverflowCount := p.overflow
        typ := if db.freed (pgidOfInt id) then "free" else p.typ })

end Bbolt
