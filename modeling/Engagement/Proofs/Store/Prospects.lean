import Engagement.Proofs.Store.Refusals

/-! # What becomes of the coming writes

Which writes fail is decided by the refusals that storage in memory has been told, and by whether a
document can be read and replaced. It matters neither what is written nor what storage
holds, so two stores that differ in nothing else give the same answers and wait as long.
-/

namespace Engagement

namespace Document

variable {d : Document} {w : Write} {files : Files} {fault : Fault}

/-- The answer to the next write of a document. -/
def answer (d : Document) : Except Fault Unit :=
  match d.base none with
  | .error fault => .error fault
  | .ok _ => (d.exchange "").2

theorem exchange_snd (d : Document) (text : String) : (d.exchange text).2 = (d.exchange "").2 := by
  rcases d.exchange_cases text with ⟨_, he, named, free, clear, -⟩ | ⟨_, he, -, blocked, -⟩ <;>
    rcases d.exchange_cases "" with ⟨_, he', named', free', clear', -⟩ | ⟨_, he', -, blocked', -⟩ <;>
    rw [he, he']
  · exact ((blocked' named).elim free clear).elim
  · exact ((blocked named').elim free' clear').elim

theorem exchange_fails (blocked : Path.namesFile d.path = true →
    d.files d.sibling = .directory ∨ d.contents = .directory) : (d.exchange "").2 = .error .io := by
  rcases d.exchange_cases "" with ⟨_, -, named, free, clear, -⟩ | ⟨_, he, -⟩
  · exact ((blocked named).elim free clear).elim
  · rw [he]

/-- What can be read stays so, but for a path that names no file. -/
theorem base_of_kept {snapshot : Snapshot} (based : d.base none = .ok snapshot)
    (kept : Path.namesFile d.path = true → files d.path = d.files d.path) :
    ({ d with files := files } : Document).base none = .ok snapshot ∨
      (Path.namesFile d.path = false ∧
        ({ d with files := files } : Document).base none = .error .io) := by
  unfold base at *
  cases hk : d.known with
  | some known => exact .inl (by rwa [hk] at based)
  | none =>
    rw [hk, read_none] at based
    rw [read_none]
    dsimp only at based ⊢
    cases named : Path.namesFile d.path with
    | true =>
      have place := Path.place_of_namesFile named
      have same : files (Path.place d.path) = d.files (Path.place d.path) := by
        rw [place]
        exact kept named
      exact .inl ((Files.read_congr same).trans based)
    | false =>
      rcases files.read_of_not_named named with he | he
      · rcases d.files.read_of_not_named named with hd | hd <;> rw [hd] at based
        · exact .inl (he.trans based)
        · cases based
      · exact .inr ⟨rfl, he⟩

/-- A write is answered as is decided before it, and so is the next. -/
theorem answer_write (d : Document) (w : Write) :
    (d.write none w).1.answer = d.answer ∧ (d.write none w).2 = d.answer := by
  unfold write
  cases hb : d.base none with
  | error fault =>
    have same : d.answer = .error fault := by rw [answer, hb]
    exact ⟨rfl, same.symm⟩
  | ok snapshot =>
    have same : d.answer = (d.exchange (snapshot.apply w).text).2 := by
      rw [answer, hb, exchange_snd d (snapshot.apply w).text]
    rcases d.exchange_cases (snapshot.apply w).text with ⟨files, he, named, -, -, placed, free⟩ |
      ⟨files, he, but, blocked, kept⟩
    · rw [he] at same
      simp only [replace, he]
      refine ⟨?_, same.symm⟩
      let after : Document := { d with files := files, known := some (snapshot.apply w) }
      have clear : after.contents ≠ .directory := by
        have text : files (Path.place d.path) = .text (snapshot.apply w).text := by
          rw [Path.place_of_namesFile named, placed]
        change files (Path.place d.path) ≠ .directory
        rw [text]
        simp
      rw [same]
      change (after.exchange "").2 = _
      rcases after.exchange_cases "" with ⟨_, ha, -⟩ | ⟨_, -, -, blocked, -⟩
      · rw [ha]
      · exact ((blocked named).elim free clear).elim
    · rw [he] at same
      simp only [replace, he]
      refine ⟨?_, same.symm⟩
      have fails : ({ d with files := files }.exchange "").2 = .error .io :=
        exchange_fails fun named => (blocked named).imp but.blocked.mpr fun occupied => by
          rw [contents, Path.place_of_namesFile named] at occupied ⊢
          exact (kept named).trans occupied
      rw [same, answer]
      rcases base_of_kept hb kept with ho | ⟨-, ho⟩ <;> rw [ho]
      exact fails

end Document

namespace Backend

/-- All that decides which of the coming writes fail. -/
inductive Prospect where
  | told (refusals : List Bool)
  | document (answer : Except Fault Unit)

/-- The answer to the next write, and what decides on those after it. -/
def Prospect.next : Prospect → Prospect × Except Fault Unit
  | .told (true :: refusals) => (.told refusals, .error .writeRefused)
  | .told refusals => (.told refusals.tail, .ok ())
  | .document answer => (.document answer, answer)

def prospect : Backend → Prospect
  | .memory _ refusals => .told refusals
  | .file d => .document d.answer

theorem prospect_write (b : Backend) (w : Write) :
    ((b.write w).1.prospect, (b.write w).2) = b.prospect.next := by
  cases b with
  | memory held refusals =>
    match refusals with
    | true :: _ => rfl
    | [] => rfl
    | false :: _ => rfl
  | file d =>
    obtain ⟨stays, answer⟩ := d.answer_write w
    exact Prod.ext (congrArg Prospect.document stays) answer

variable {b b' : Backend}

theorem write_alike (same : b'.prospect = b.prospect) (w w' : Write) :
    (b'.write w').2 = (b.write w).2 ∧ (b'.write w').1.prospect = (b.write w).1.prospect := by
  obtain ⟨rest, answer⟩ := Prod.mk.inj
    ((prospect_write b' w').trans ((congrArg Prospect.next same).trans (prospect_write b w).symm))
  exact ⟨answer, rest⟩

theorem retry_alike (same : b'.prospect = b.prospect) (backoff : Nat) (w w' : Write)
    (n extra : Nat) :
    (b'.retry backoff w' n extra).2 = (b.retry backoff w n extra).2 ∧
      (b'.retry backoff w' n extra).1.prospect = (b.retry backoff w n extra).1.prospect := by
  induction extra generalizing b b' n with
  | zero =>
    obtain ⟨answer, rest⟩ := write_alike same w w'
    rw [retry.eq_def, retry.eq_def]
    rcases h : b.write w with ⟨after, _ | _⟩ <;> rcases h' : b'.write w' with ⟨after', _ | _⟩ <;>
      simp_all
  | succ extra ih =>
    obtain ⟨answer, rest⟩ := write_alike same w w'
    rcases h : b.write w with ⟨after, fault | _⟩
    · rcases h' : b'.write w' with ⟨after', fault' | _⟩
      · rw [h, h'] at rest
        obtain ⟨later, last⟩ := ih rest (n + 1)
        rw [retry_of_error _ _ _ h, retry_of_error _ _ _ h', later]
        exact ⟨rfl, last⟩
      · rw [h, h'] at answer
        cases answer
    · rcases h' : b'.write w' with ⟨after', fault' | _⟩
      · rw [h, h'] at answer
        cases answer
      · rw [h, h'] at rest
        rw [retry_of_ok _ _ _ h, retry_of_ok _ _ _ h']
        exact ⟨rfl, rest⟩

end Backend

namespace Store

variable {store store' : Store} {w w' : Write}

/-- What is written to the stores meets with the same success, after pauses of the same length. -/
structure Alike (store store' : Store) : Prop where
  retry : store'.retry = store.retry
  waited : store'.waited = store.waited
  prospect : store'.backend.prospect = store.backend.prospect

theorem Alike.write (alike : Alike store store') (name : w'.name = w.name) :
    (store'.write w').2 = (store.write w).2 ∧ Alike (store.write w).1 (store'.write w').1 := by
  have attempts : store'.attempts = store.attempts := by rw [Store.attempts, alike.retry]; rfl
  obtain ⟨answer, prospect⟩ := Backend.retry_alike alike.prospect store.retry.backoff w w' 1
    (store.attempts - 1)
  unfold Store.write
  simp only [alike.retry, attempts, answer, name, alike.waited]
  exact ⟨trivial, rfl, rfl, prospect⟩

theorem Alike.save (alike : Alike store store') (j j' : Journey) :
    (store'.save j').2 = (store.save j).2 ∧ Alike (store.save j).1 (store'.save j').1 := by
  have held : Alike { store with active := upsert j store.active }
      { store' with active := upsert j' store'.active } :=
    ⟨alike.retry, alike.waited, alike.prospect⟩
  have name : (Write.put j').name = (Write.put j).name := rfl
  exact held.write name

theorem Alike.complete (alike : Alike store store') (j j' : Journey) :
    Alike (store.complete j).1 (store'.complete j').1 := by
  have filed : Alike (store.filed j) (store'.filed j') :=
    ⟨alike.retry, alike.waited, alike.prospect⟩
  have name : (Write.complete j'.id (.ofJourney j')).name =
      (Write.complete j.id (.ofJourney j)).name := rfl
  have put_name : (Write.put j').name = (Write.put j).name := rfl
  obtain ⟨answer, rest⟩ := filed.write name
  rcases h : (store.filed j).write (.complete j.id (.ofJourney j)) with ⟨after, fault | _⟩ <;>
    rcases h' : (store'.filed j').write (.complete j'.id (.ofJourney j')) with ⟨after', fault' | _⟩
  all_goals rw [h, h'] at answer rest
  · rw [complete_of_error h, complete_of_error h']
    exact (Alike.write rest put_name).2
  · cases answer
  · cases answer
  · rw [complete_of_ok h, complete_of_ok h']
    exact rest

end Store

end Engagement
