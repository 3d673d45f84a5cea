/-
The life of a transaction under the calls a user makes on it: `Commit`, `Rollback` and `OnCommit`,
one after another. A panic unwinds to the caller, who may go on calling, as a deferred `Rollback`
does. A writer's commits that panic leave it open; its first `Commit` or `Rollback` that returns
closes it. The writer lock is released once; the freelist is undone as the call requires, and
reloaded after a failed commit when the file is still mapped at that point; and the handlers
registered before, in order, run after the lock is released exactly when the commit succeeded.
Every later call returns `ErrTxClosed` and leaves the database alone. A reader stays open through
its commits, which return `ErrTxNotWritable`, until its first rollback deregisters it.
-/
import Bbolt.Tx.Durability

namespace Bbolt

/-! ## Calls on a transaction -/

/-- A call a user makes on a transaction; a commit meets the collaborators `env`. -/
inductive Call where
  | commit (env : Env)
  | rollback
  | onCommit (fn : Nat)

def Call.apply (K : Consts) : Call → TxState → Ret (Option Err)
  | .commit env, s => Tx.Commit K env s
  | .rollback, s => Tx.Rollback s
  | .onCommit fn, s => .ok none (Tx.OnCommit fn s)

/-- The handlers the `OnCommit` calls among `cs` register, in order. -/
def Call.handlers (cs : List Call) : List Nat :=
  cs.filterMap fun
    | .onCommit fn => some fn
    | _ => none

theorem Call.handlers_append (a b : List Call) :
    Call.handlers (a ++ b) = Call.handlers a ++ Call.handlers b := List.filterMap_append _ _ _

/-- The calls a commit plans: none of them closes the transaction, undoes the freelist or runs a
handler. -/
def Event.isPlanned : Event → Bool
  | unlock | removeTx | freelistRollback _ | freelistReload | handler _ => false
  | _ => true

/-- `t` is the writer `s` after calls `cs` none of which closed it: open, with the same database
and `txid`, the handlers `cs` registered added, and only planned calls made. -/
structure StillOpen (s : TxState) (cs : List Call) (t : TxState) : Prop where
  isOpen : t.tx.db
  writable : t.tx.writable
  managed : t.tx.managed = false
  dbase : t.db = s.db
  txid : t.tx.meta.txid = s.tx.meta.txid
  handlers : t.tx.commitHandlers = s.tx.commitHandlers ++ Call.handlers cs
  planned : ∃ W, t.trace = s.trace ++ W ∧ ∀ y ∈ W, y.isPlanned

theorem StillOpen.trans {s t u : TxState} {a b : List Call} (h₁ : StillOpen s a t)
    (h₂ : StillOpen t b u) : StillOpen s (a ++ b) u := by
  obtain ⟨W₁, ht₁, hW₁⟩ := h₁.planned
  obtain ⟨W₂, ht₂, hW₂⟩ := h₂.planned
  refine ⟨h₂.isOpen, h₂.writable, h₂.managed, h₂.dbase.trans h₁.dbase, h₂.txid.trans h₁.txid,
    by rw [h₂.handlers, h₁.handlers, Call.handlers_append, List.append_assoc], W₁ ++ W₂,
    by rw [ht₂, ht₁, List.append_assoc], fun y hy => ?_⟩
  rcases List.mem_append.1 hy with hy | hy
  exacts [hW₁ y hy, hW₂ y hy]

end Bbolt
