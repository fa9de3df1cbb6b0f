import Mathlib.Data.List.Infix
import Engagement.Proofs.Store.Documents
import Engagement.Proofs.Store.Retention

/-! # Documents in the place of memory

Documents and storage in memory answer the same calls alike, as long as what is written reads back.
Calls that fail on the way leave no trace, unless a document is its own sibling.
-/

namespace Engagement

/-- The text of the snapshot reads as the snapshot. -/
def Snapshot.ReadsBack (snapshot : Snapshot) : Prop :=
  Snapshot.ofText? snapshot.text = some snapshot

namespace Backend

def after (b : Backend) (calls : List Call) : Backend :=
  calls.foldl (fun b call => (b.perform call).1) b

def answers (b : Backend) : List Call → List (Except Fault (Option Snapshot))
  | [] => []
  | call :: rest => (b.perform call).2 :: (b.perform call).1.answers rest

end Backend

namespace Document

def after (d : Document) (history : List Attempt) : Document :=
  history.foldl (fun d attempt => (d.perform attempt.mishap attempt.call).1) d

def answers (d : Document) : List Attempt → List (Except Fault (Option Snapshot))
  | [] => []
  | ⟨call, mishap⟩ :: rest => (d.perform mishap call).2 :: (d.perform mishap call).1.answers rest

/-- The calls that succeed. -/
def kept (d : Document) : List Attempt → List Call
  | [] => []
  | ⟨call, mishap⟩ :: rest =>
    match (d.perform mishap call).2 with
    | .ok _ => call :: (d.perform mishap call).1.kept rest
    | .error _ => (d.perform mishap call).1.kept rest

variable {d d' : Document} {mishap : Option Mishap} {call : Call} {calls : List Call}
  {held later : Holdings} {answer : Option Snapshot}

/-- A call that failed makes no difference to those after it. -/
theorem Agrees.run (h : d.Agrees d') (apart : d.Apart) (history : List Attempt) :
    d'.answers history = d.answers history ∧
      (d'.after history).contents = (d.after history).contents ∧
      (d'.after history).known = (d.after history).known := by
  induction history generalizing d d' with
  | nil => exact ⟨rfl, h.contents apart, h.known⟩
  | cons attempt rest ih =>
    obtain ⟨call, mishap⟩ := attempt
    obtain ⟨same, agrees⟩ := h.perform apart mishap call
    obtain ⟨answers, after⟩ := ih agrees (apart.perform mishap call)
    exact ⟨congrArg₂ List.cons same answers, after⟩

/-! ## Calls that succeed -/

/-- The document reads as a snapshot, and no other is known of it. -/
structure Mirrors (d : Document) (held : Snapshot) : Prop where
  reads : d.files.read d.path = .ok held
  known : ∀ snapshot ∈ d.known, snapshot = held

theorem Mirrors.of_agrees (h : d.Mirrors held) (agrees : d.Agrees d') (apart : d.Apart) :
    d'.Mirrors held where
  reads := by
    have same : d'.files (Path.place d.path) = d.contents := by
      rw [← agrees.contents apart, Document.contents, agrees.path]
    rw [agrees.path, Files.read_congr same]
    exact h.reads
  known := by rw [agrees.known]; exact h.known

theorem Mirrors.read_eq (h : d.Mirrors held) {snapshot : Snapshot}
    (he : d.read mishap = .ok snapshot) : snapshot = held := by
  unfold Document.read at he
  rw [h.reads] at he
  split at he
  · cases he
  · exact (Except.ok.inj he).symm

theorem Mirrors.base_eq (h : d.Mirrors held) {snapshot : Snapshot}
    (he : d.base mishap = .ok snapshot) : snapshot = held := by
  unfold Document.base at he
  cases hk : d.known with
  | some known =>
    rw [hk] at he
    obtain rfl := Except.ok.inj he
    exact h.known _ hk
  | none =>
    rw [hk] at he
    exact h.read_eq he

/-- A call that succeeds is answered as storage in memory answers it, and both hold the same
afterwards. -/
theorem Mirrors.perform (h : d.Mirrors held)
    (reads : ∀ later ∈ ((Backend.memory held []).perform call).1.contents?, later.ReadsBack)
    (ok : (d.perform mishap call).2 = .ok answer) :
    ∃ later, (Backend.memory held []).perform call = (.memory later [], .ok answer) ∧
      (d.perform mishap call).1.Mirrors later := by
  cases call with
  | load =>
    rcases d.load_cases mishap with ⟨_, he⟩ | ⟨snapshot, hr, he⟩ <;>
      rw [Document.perform, he] at ok ⊢
    · cases ok
    · obtain rfl := h.read_eq hr
      obtain rfl := Except.ok.inj ok
      exact ⟨held, rfl, h.reads, by simp⟩
  | write w =>
    rcases d.write_cases mishap w with ⟨_, _, -, he⟩ | ⟨files, snapshot, hb, hp, he⟩ <;>
      rw [Document.perform, he] at ok ⊢
    · cases ok
    · obtain rfl := h.base_eq hb
      obtain rfl := Except.ok.inj ok
      obtain ⟨named, placed, -⟩ := replace_of_ok hp
      refine ⟨held.apply w, rfl, ?_, by simp⟩
      have text : files (Path.place d.path) = .text (held.toSnapshot.apply w).text := by
        rw [Path.place_of_namesFile named, placed]
      change files.read d.path = _
      rw [Files.read, text]
      simpa [named] using Backend.read_text (reads _ rfl)
  | reopen =>
    obtain rfl := Except.ok.inj ok
    exact ⟨held, rfl, h.reads, by simp [Document.perform, Document.reopen]⟩

theorem Mirrors.succeeds (h : d.Mirrors held) (clear : d.Clear) (call : Call) :
    ∃ answer, (d.perform none call).2 = .ok answer := by
  have reads : d.read none = .ok held := (d.read_none).trans h.reads
  cases call with
  | load => exact ⟨some held, by simp [Document.perform, Document.load, reads, Except.map]⟩
  | write w =>
    have free : d.contents ≠ .directory := fun occupied => by
      have blocked := h.reads
      rw [Files.read, show d.files (Path.place d.path) = .directory from occupied] at blocked
      cases blocked
    have based : ∃ snapshot, d.base none = .ok snapshot := by
      unfold Document.base
      cases d.known with
      | some known => exact ⟨known, rfl⟩
      | none => exact ⟨held, reads⟩
    obtain ⟨snapshot, hb⟩ := based
    refine ⟨none, ?_⟩
    rcases d.exchange_cases (snapshot.apply w).text with ⟨files, he, -⟩ | ⟨_, -, -, blocked, -⟩
    · simp [Document.perform, Document.write, hb, replace, he, Except.map]
    · exact ((blocked clear.named).elim clear.sibling free).elim
  | reopen => exact ⟨none, rfl⟩

/-! ## Runs -/

/-- Storage in memory that refuses nothing comes to hold what reads back, whichever of the calls it
has carried out. -/
def ReadBack (held : Holdings) (calls : List Call) : Prop :=
  ∀ prior, prior <+: calls → ∀ later ∈ ((Backend.memory held []).after prior).contents?,
    later.ReadsBack

theorem ReadBack.head (reads : ReadBack held (call :: calls)) :
    ∀ later ∈ ((Backend.memory held []).perform call).1.contents?, later.ReadsBack :=
  reads [call] ⟨calls, rfl⟩

theorem ReadBack.tail (reads : ReadBack held (call :: calls))
    (he : (Backend.memory held []).perform call = (.memory later [], .ok answer)) :
    ReadBack later calls := by
  intro prior hp
  have := reads (call :: prior) (List.prefix_cons_inj call |>.mpr hp)
  rwa [Backend.after, List.foldl_cons, he] at this

/-- Without mishaps all calls succeed, and they are answered as by storage in memory. -/
theorem Mirrors.smooth (h : d.Mirrors held) (clear : d.Clear) (reads : ReadBack held calls) :
    (∀ answer ∈ d.answers (calls.map (⟨·, none⟩)), answer.isOk) ∧
    d.answers (calls.map (⟨·, none⟩)) = (Backend.memory held []).answers calls ∧
    ∃ later, (Backend.memory held []).after calls = .memory later [] ∧
      (d.after (calls.map (⟨·, none⟩))).Mirrors later := by
  induction calls generalizing d held with
  | nil => exact ⟨by simp [answers], rfl, held, rfl, h⟩
  | cons call rest ih =>
    obtain ⟨answer, ok⟩ := h.succeeds clear call
    obtain ⟨next, he, mirrors⟩ := h.perform reads.head ok
    obtain ⟨succeed, answers, later, after, mirrors⟩ :=
      ih mirrors (clear.perform none call) (reads.tail he)
    refine ⟨?_, ?_, later, ?_, mirrors⟩
    · rw [List.map_cons, Document.answers, List.forall_mem_cons, ok]
      exact ⟨rfl, succeed⟩
    · rw [List.map_cons, Document.answers, Backend.answers, he, ok, answers]
    · rw [Backend.after, List.foldl_cons, he]
      exact after

/-- The calls that succeed are answered as by storage in memory that hears of no others. -/
theorem Mirrors.run (h : d.Mirrors held) (apart : d.Apart) {history : List Attempt}
    (reads : ReadBack held (d.kept history)) :
    (d.answers history).filter (·.isOk) = (Backend.memory held []).answers (d.kept history) ∧
    ∃ later, (Backend.memory held []).after (d.kept history) = .memory later [] ∧
      (d.after history).Mirrors later := by
  induction history generalizing d held with
  | nil => exact ⟨rfl, held, rfl, h⟩
  | cons attempt rest ih =>
    obtain ⟨call, mishap⟩ := attempt
    have apart' := apart.perform mishap call
    cases hr : (d.perform mishap call).2 with
    | error fault =>
      have same : d.kept (⟨call, mishap⟩ :: rest) = (d.perform mishap call).1.kept rest := by
        rw [kept, hr]
      rw [same] at reads ⊢
      obtain ⟨answers, after⟩ := ih (h.of_agrees (agrees_of_error hr) apart) apart' reads
      refine ⟨?_, after⟩
      have fails : ¬ (Except.error fault : Except Fault (Option Snapshot)).isOk = true :=
        Bool.false_ne_true
      rw [Document.answers, hr, List.filter_cons_of_neg fails, answers]
    | ok answer =>
      have more : d.kept (⟨call, mishap⟩ :: rest) =
        call :: (d.perform mishap call).1.kept rest := by rw [kept, hr]
      rw [more] at reads ⊢
      obtain ⟨next, he, mirrors⟩ := h.perform reads.head hr
      obtain ⟨answers, later, after, mirrors⟩ := ih mirrors apart' (reads.tail he)
      refine ⟨?_, later, ?_, mirrors⟩
      · rw [Document.answers, hr, List.filter_cons_of_pos (by rfl), answers, Backend.answers, he]
      · rw [Backend.after, List.foldl_cons, he]
        exact after

theorem Mirrors.contents? (h : d.Mirrors held) :
    (Backend.file d).contents? = some held.toSnapshot := by
  simp [Backend.contents?, read_none, h.reads, Except.toOption]

/-- What storage that keeps a document answers. -/
theorem answers_file (d : Document) (calls : List Call) :
    (Backend.file d).answers calls = d.answers (calls.map (⟨·, none⟩)) := by
  induction calls generalizing d with
  | nil => rfl
  | cons call calls ih =>
    rw [Backend.answers, Backend.perform_file, ih]
    rfl

theorem answers_load (d : Document) :
    d.answers [⟨.load, none⟩] = [(d.files.read d.path).map some] := by
  simp [answers, perform, load_snd, read_none]

theorem after_file (d : Document) (calls : List Call) :
    (Backend.file d).after calls = .file (d.after (calls.map (⟨·, none⟩))) := by
  induction calls generalizing d with
  | nil => rfl
  | cons call calls ih =>
    rw [Backend.after, List.foldl_cons, Backend.perform_file]
    exact ih _

end Document

open Document in
/-- A document that is absent or empty at first and storage in memory that is empty are
interchangeable. As long as no file operation fails, all calls succeed and are answered alike, and
after them the document reads as what is held in memory. When calls fail, and the document is not
its own sibling, storage in memory that hears only of the others answers these alike. A call that
fails leaves the text and what is known of it unchanged then; all later calls are answered as if it
had not been made. -/
theorem file_and_memory_interchangeable {document : Document} (unread : document.known = none)
    (fresh : document.contents = .absent ∨
      (document.contents = .text "" ∧ Path.namesFile document.path = true)) :
    let memory := Backend.memory .empty []
    let file := Backend.file document
    (∀ calls, document.Clear → ReadBack .empty calls →
      (∀ answer ∈ file.answers calls, answer.isOk) ∧ file.answers calls = memory.answers calls ∧
      (file.after calls).contents? = (memory.after calls).contents?) ∧
    (document.Apart → ∀ history, ReadBack .empty (document.kept history) →
      (document.answers history).filter (·.isOk) = memory.answers (document.kept history) ∧
      (Backend.file (document.after history)).contents? =
        (memory.after (document.kept history)).contents?) ∧
    ∀ (d : Document) call mishap fault, d.Apart → (d.perform mishap call).2 = .error fault →
      let failed := (d.perform mishap call).1
      failed.contents = d.contents ∧ failed.known = d.known ∧
      ∀ history, failed.answers history = d.answers history ∧
        (failed.after history).contents = (d.after history).contents ∧
        (failed.after history).known = (d.after history).known := by
  intro memory file
  have mirrors : document.Mirrors Holdings.empty := by
    refine ⟨?_, by simp [unread]⟩
    have contents : document.files (Path.place document.path) = document.contents := rfl
    rw [Files.read, contents]
    rcases fresh with he | ⟨he, named⟩ <;> rw [he]
    · rfl
    · rw [named]
      rfl
  refine ⟨fun calls clear reads => ?_, fun apart history reads => ?_,
    fun d call mishap fault apart fails => ?_⟩
  · obtain ⟨succeed, answers, later, after, mirrors⟩ := mirrors.smooth clear reads
    have file_answers : file.answers calls = _ := answers_file document calls
    have file_after : file.after calls = _ := after_file document calls
    rw [file_answers, file_after, mirrors.contents?, after]
    exact ⟨succeed, answers, rfl⟩
  · obtain ⟨answers, later, after, mirrors⟩ := mirrors.run apart reads
    refine ⟨answers, ?_⟩
    rw [mirrors.contents?, after]
    rfl
  · have agrees := agrees_of_error fails
    exact ⟨agrees.contents apart, agrees.known, agrees.run apart⟩

/-- A document that is not there yet. -/
def unwritten (path : String) : Document := ⟨path, fun _ => .absent, none⟩

def farewell : Completion := ⟨"ann", "greeting", ⟨7⟩, .epoch, .completed⟩

theorem Snapshot.readsBack_of_ledger {ledger : List Completion}
    (read : (Snapshot.ofText? (Snapshot.text ⟨[], ledger⟩)).map
      (fun held => (held.journeys.length, held.ledger)) = some (0, ledger)) :
    Snapshot.ReadsBack ⟨[], ledger⟩ := by
  obtain ⟨⟨journeys, ledger⟩, he, same⟩ := Option.map_eq_some_iff.mp read
  obtain ⟨none, rfl⟩ := Prod.mk.inj same
  obtain rfl : journeys = [] := List.length_eq_zero_iff.mp none
  exact he

theorem farewell_readsBack : Snapshot.ReadsBack ⟨[], [farewell]⟩ :=
  Snapshot.readsBack_of_ledger (by decide +kernel)

theorem empty_readsBack : Snapshot.empty.ReadsBack :=
  Snapshot.readsBack_of_ledger (by decide +kernel)

/-- A record is filed and looked up after a restart. -/
def filing : List Call := [.load, .write (.complete farewell.journeyId farewell), .reopen, .load]

theorem filing_readBack : Document.ReadBack .empty filing := by
  have blank : ∀ later ∈ some Snapshot.empty, later.ReadsBack :=
    fun _ h => Option.some.inj h ▸ empty_readsBack
  have filed : ∀ later ∈ some (⟨[], [farewell]⟩ : Snapshot), later.ReadsBack :=
    fun _ h => Option.some.inj h ▸ farewell_readsBack
  have along : ∀ prior ∈ filing.inits,
      ∀ later ∈ ((Backend.memory .empty []).after prior).contents?, later.ReadsBack := by
    simp only [filing, List.inits, List.map, List.forall_mem_cons]
    exact ⟨blank, blank, filed, filed, filed, by simp⟩
  exact fun prior hp => along prior ((List.mem_inits _ _).mpr hp)

/-- The record is filed only at the third attempt: first the sibling is written in part, then it is
not renamed. -/
def hinderedFiling : List Attempt :=
  let files := Call.write (.complete farewell.journeyId farewell)
  [⟨.load, none⟩, ⟨files, some (.write (some "["))⟩, ⟨files, some .rename⟩, ⟨files, none⟩,
    ⟨.reopen, none⟩]

theorem unwritten_kept :
    (unwritten "journeys.json").kept hinderedFiling =
      [.load, .write (.complete farewell.journeyId farewell), .reopen] := by
  have sibling : Path.sibling "journeys.json" = "journeys.tmp" := by decide +kernel
  have placed : Path.place "journeys.tmp" = "journeys.tmp" := by decide +kernel
  have named : Path.namesFile "journeys.json" = true := by decide +kernel
  have named' : Path.namesFile "journeys.tmp" = true := by decide +kernel
  simp [Document.kept, hinderedFiling, unwritten, Document.perform, Document.load, Document.read,
    Document.write, Document.base, Document.replace, Document.leaving, Document.exchange,
    Document.sibling, Document.reopen, Files.read, Files.write, Files.rename, Files.put, Disk.read,
    sibling, placed, named, named', Except.map, Except.toOption]

theorem unwritten_interchangeable :
    let fresh := unwritten "journeys.json"
    (Backend.file fresh).answers filing =
      [.ok (some .empty), .ok none, .ok none, .ok (some ⟨[], [farewell]⟩)] ∧
    (Backend.file (fresh.after hinderedFiling)).contents? = some ⟨[], [farewell]⟩ ∧
    (fresh.perform (some .read) .load).1.answers [⟨.load, none⟩] = [.ok (some .empty)] := by
  intro fresh
  have apart : fresh.Apart := by decide +kernel
  have clear : fresh.Clear := ⟨by decide +kernel, by simp [fresh, unwritten]⟩
  have kept : fresh.kept hinderedFiling = [.load, _, .reopen] := unwritten_kept
  obtain ⟨smooth, hindered, fails⟩ := @file_and_memory_interchangeable fresh rfl (.inl rfl)
  refine ⟨(smooth filing clear filing_readBack).2.1.trans rfl, ?_, ?_⟩
  · have reads : Document.ReadBack .empty (fresh.kept hinderedFiling) := fun prior hp =>
      filing_readBack prior (hp.trans (kept ▸ ⟨[.load], rfl⟩))
    rw [(hindered apart hinderedFiling reads).2, kept]
    rfl
  · rw [((fails fresh .load (some .read) .io apart rfl).2.2 [⟨.load, none⟩]).1]
    rfl

/-- After a call that fails, all later calls are answered as if it had not been made. -/
def Document.ForgetsFailures (d : Document) : Prop :=
  ∀ call mishap fault, (d.perform mishap call).2 = .error fault →
    ∀ history, (d.perform mishap call).1.answers history = d.answers history

/-- Two documents that are their own siblings. When the text of the first is written in part only,
that part is left in its place. The other cannot be read once a write has failed, although nothing
goes wrong on the way: a file is left where its path wants a folder. -/
theorem failed_write_felt :
    ¬ (unwritten "journeys.tmp").ForgetsFailures ∧
      ¬ (unwritten "journeys.tmp/").ForgetsFailures := by
  let nothing : Files := fun _ => .absent
  let files := Call.write (.complete farewell.journeyId farewell)
  have sibling : Path.sibling "journeys.tmp" = "journeys.tmp" := by decide +kernel
  have sibling' : Path.sibling "journeys.tmp/" = "journeys.tmp" := by decide +kernel
  have placed : Path.place "journeys.tmp" = "journeys.tmp" := by decide +kernel
  have placed' : Path.place "journeys.tmp/" = "journeys.tmp" := by decide +kernel
  have named : Path.namesFile "journeys.tmp" = true := by decide +kernel
  have unnamed : Path.namesFile "journeys.tmp/" = false := by decide +kernel
  have garbled : Snapshot.ofText? "[" = none := Option.isNone_iff_eq_none.mp (by decide +kernel)
  have blank (path : String) : (unwritten path).answers [⟨.load, none⟩] = [.ok (some .empty)] := by
    rw [Document.answers_load]
    rfl
  -- The calls that fail, with what they leave in the place of the document.
  have breaks : (unwritten "journeys.tmp").perform (some (.write (some "["))) files =
      (⟨"journeys.tmp", Files.put nothing "journeys.tmp" (.text "["), none⟩, .error .io) := by
    simp [nothing, files, unwritten, Document.perform, Document.write, Document.base,
      Document.read, Document.replace, Document.leaving, Document.sibling, Files.read, Files.write,
      Disk.read, sibling, placed, named, Except.map, Except.toOption]
  have misses : (unwritten "journeys.tmp/").perform none files =
      (⟨"journeys.tmp/", Files.put nothing "journeys.tmp"
        (.text (Snapshot.text ⟨[], [farewell]⟩)), none⟩, .error .io) := by
    simp [nothing, files, unwritten, Document.perform, Document.write, Document.base,
      Document.read, Document.replace, Document.exchange, Document.sibling, Files.read, Files.write,
      Files.rename, Disk.read, sibling', placed, named, unnamed, Except.map, Snapshot.apply,
      Snapshot.empty, without]
  constructor <;> intro forgets
  · have := forgets files (some (.write (some "["))) .io (by rw [breaks]) [⟨.load, none⟩]
    rw [breaks, blank, Document.answers_load] at this
    simp [Files.read, placed, named, Disk.read, garbled, Except.map] at this
  · have := forgets files none .io (by rw [misses]) [⟨.load, none⟩]
    rw [misses, blank, Document.answers_load] at this
    simp [Files.read, placed', unnamed, Except.map] at this

end Engagement
