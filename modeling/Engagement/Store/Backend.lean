import Engagement.Store.Document

/-! # Durable storage

Storage in memory may be told which of the coming writes it refuses; a write that it refuses changes
nothing. A document is among files, and what stands at its path and that of its sibling decides which
writes fail.
-/

namespace Engagement

inductive Backend where
  /-- Storage in memory; each coming write takes one refusal, and none is left for the others. -/
  | memory (held : Holdings) (refusals : List Bool)
  | file (document : Document)

namespace Backend

def load : Backend → Backend × Except Fault Snapshot
  | .memory held refusals => (.memory held refusals, .ok held)
  | .file document =>
    let (document, result) := document.load none
    (.file document, result)

def write (w : Write) : Backend → Backend × Except Fault Unit
  | .memory held (true :: refusals) => (.memory held refusals, .error .writeRefused)
  | .memory held refusals => (.memory (held.apply w) refusals.tail, .ok ())
  | .file document =>
    let (document, result) := document.write none w
    (.file document, result)

/-- Tries a write, and up to `extra` times more. After the `n`-th failure it waits `n` times the
backoff. Answers with the time waited, and the last failure if all attempts fail. -/
def retry (backoff : Nat) (w : Write) (n : Nat) :
    Nat → Backend → Backend × Nat × Except Fault Unit
  | extra, backend =>
    match backend.write w, extra with
    | (after, .ok ()), _ => (after, 0, .ok ())
    | (after, .error fault), 0 => (after, 0, .error fault)
    | (after, .error _), extra + 1 =>
      let (last, waited, result) := retry backoff w (n + 1) extra after
      (last, backoff * n + waited, result)

/-- Storage of the same data opened anew. -/
def reopen : Backend → Backend
  | .memory held refusals => .memory held refusals
  | .file document => .file document.reopen

/-- What storage holds, as far as it can be read. -/
def contents? : Backend → Option Snapshot
  | .memory held _ => some held
  | .file document => (document.read none).toOption

end Backend

end Engagement
