import Engagement.Store.Backend

/-! # The store

The journeys under way and the ledger, held in memory in front of durable storage. The held state
changes before the durable write is tried, so a reader sees what was written last. When the
completion of a journey cannot be written, the ended journey itself is, and the next load finds it
stranded.
-/

namespace Engagement

/-- How often a write is tried, and the pause in milliseconds after the first failure. -/
structure RetryPolicy where
  attempts : Nat
  backoff : Nat
  deriving DecidableEq

structure Store where
  backend : Backend
  retry : RetryPolicy
  /-- Journeys under way, one per id. They are found by id or by user; where all are gone through,
  their order is not promised, and that of their first saves stands for any. -/
  active : List Journey
  ledger : List Completion
  /-- Milliseconds spent in pauses between attempts. -/
  waited : Nat

namespace Store

variable (store : Store)

/-- A store that has loaded nothing. -/
def new (backend : Backend) (retry : RetryPolicy) : Store := ⟨backend, retry, [], [], 0⟩

/-- Takes over what storage holds. Answers with the journeys that have ended without a record. -/
def load : Store × Except Fault (List Journey) :=
  match store.backend.load with
  | (backend, .ok snapshot) =>
    let underWay := snapshot.journeys.filter fun j => !j.isTerminal
    ({ store with
        backend := backend
        active := underWay.foldl (fun held j => upsert j held) []
        ledger := snapshot.ledger },
      .ok (snapshot.journeys.filter Journey.isTerminal))
  | (backend, .error fault) => ({ store with backend := backend }, .error fault)

def get? (id : JourneyId) : Option Journey := store.active.find? (·.id = id)

/-- The journeys of a user, oldest first. -/
def activeFor (user : String) : List Journey :=
  (store.active.filter (·.distinctId = user)).mergeSort
    fun j k => decide (j.startedAt ≤ k.startedAt)

def ledgerFor (user campaign : String) : List Completion :=
  store.ledger.filter fun r => r.distinctId = user ∧ r.campaignId = campaign

/-- Every write is tried at least once. -/
def attempts : Nat := max 1 store.retry.attempts

def write (w : Write) : Store × Except Fault Unit :=
  let (backend, waited, result) :=
    store.backend.retry store.retry.backoff w 1 (store.attempts - 1)
  ({ store with backend := backend, waited := store.waited + waited },
    match result with
    | .ok () => .ok ()
    | .error last => .error (.writeFailed w.name store.attempts last))

/-- Records a journey's new state. -/
def save (journey : Journey) : Store × Except Fault Unit :=
  { store with active := upsert journey store.active }.write (.put journey)

/-- Moves an ended journey to the ledger. -/
def complete (journey : Journey) : Store × Except Fault Completion :=
  let record := Completion.ofJourney journey
  let held := { store with
    active := without journey.id store.active, ledger := store.ledger ++ [record] }
  match held.write (.complete journey.id record) with
  | (written, .ok ()) => (written, .ok record)
  | (refused, .error fault) => ((refused.write (.put journey)).1, .error fault)

/-- Another store in front of the same data, which has loaded nothing. -/
def reopen : Store := .new store.backend.reopen store.retry

def summary : String :=
  s!"JourneyStore \x7b active: {store.active.length}, ledger: {store.ledger.length} \x7d"

end Store

end Engagement
