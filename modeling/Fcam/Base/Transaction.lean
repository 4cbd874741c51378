import Mathlib.Tactic.Common

/-!
# Sessions of transactions

A session changes rows in transactions, each of which also adds entries to a log. A transaction is
committed as a whole or not at all, a session may break off before and behind each, and what follows
a transaction may depend on whether it was committed. `Reaches` gives the committed stores of a
session, whatever fails, `complete` the one it ends in where nothing does.
-/

namespace Fcam

/-- What is committed: the rows, and the entries added since the session began. -/
structure Store (σ α : Type) where
  rows : σ
  log : List α

/-- The transactions of a session. `failed` is what is left of one that was not committed. -/
inductive Transactions (σ α : Type) where
  | done
  | transact (change : σ → σ × List α) (failed : σ → σ) (next : Bool → σ → Transactions σ α)

namespace Transactions

variable {σ α : Type}

/-- A session of one transaction. -/
def once (change : σ → σ × List α) : Transactions σ α := transact change id fun _ _ => done

/-- One session after the other. -/
def andThen : Transactions σ α → (σ → Transactions σ α) → σ → Transactions σ α
  | done, rest, s => rest s
  | transact change failed next, rest, _ =>
    transact change failed fun committed s => (next committed s).andThen rest s

/-- The store after a transaction was committed. -/
def commit (change : σ → σ × List α) (store : Store σ α) : Store σ α :=
  { rows := (change store.rows).1, log := store.log ++ (change store.rows).2 }

/-- The committed stores of a session. -/
inductive Reaches : Transactions σ α → Store σ α → Store σ α → Prop where
  | here (session : Transactions σ α) (store : Store σ α) : Reaches session store store
  | committed {change : σ → σ × List α} {failed : σ → σ} {next : Bool → σ → Transactions σ α}
      {store last : Store σ α}
      (h : Reaches (next true (change store.rows).1) (commit change store) last) :
      Reaches (transact change failed next) store last
  | failed {change : σ → σ × List α} {failed : σ → σ} {next : Bool → σ → Transactions σ α}
      {store last : Store σ α}
      (h : Reaches (next false (failed store.rows)) { store with rows := failed store.rows } last) :
      Reaches (transact change failed next) store last

/-- The store a session ends in if every transaction is committed. -/
def complete : Transactions σ α → Store σ α → Store σ α
  | done, store => store
  | transact change _ next, store =>
    (next true (change store.rows).1).complete (commit change store)

theorem complete_andThen (first : Transactions σ α) (rest : σ → Transactions σ α)
    (store : Store σ α) :
    (first.andThen rest store.rows).complete store = (rest (first.complete store).rows).complete
      (first.complete store) := by
  induction first generalizing store with
  | done => rfl
  | transact change failed next ih => exact ih true _ (commit change store)

end Transactions

end Fcam
