import Engagement.Proofs.Store.Balance

/-! # What storage retains

A document stays in step with what is known of it, so that it can be read back. A completion is kept
if one of its two writes is accepted; as long as all are, storage has a record for everything in the
ledger.
-/

namespace Engagement

/-! ## Documents -/

namespace Backend

variable {b : Backend} {snapshot : Snapshot}

/-- What is known of a document is what stands there, or has been written there. -/
def InStep : Backend → Prop
  | .memory .. => True
  | .file d => ∃ snapshot, d.known = some snapshot ∧
    (d.read none = .ok snapshot ∨
      Path.namesFile d.path = true ∧ d.contents = .text snapshot.text)

/-- A document that holds nothing, at a path that names no file. No write succeeds there. -/
def Barren : Backend → Prop
  | .memory .. => False
  | .file d => Path.namesFile d.path = false ∧ d.held = .empty

/-- Storage as it is once it was loaded, whatever becomes of the writes. -/
def Steady (b : Backend) : Prop := b.InStep ∨ b.Barren

/-- At a path that names no file only the empty document can be in step. -/
theorem InStep.barren {d : Document} (h : InStep (.file d))
    (unnamed : Path.namesFile d.path = false) : Barren (.file d) := by
  obtain ⟨snapshot, known, hr | ⟨named, -⟩⟩ := h
  · refine ⟨unnamed, ?_⟩
    rw [Document.read_none] at hr
    rw [Document.held_of_not_named unnamed, known]
    rcases d.files.read_of_not_named unnamed with he | he <;> rw [he] at hr
    · exact (Except.ok.inj hr).symm
    · cases hr
  · exact (Bool.false_ne_true (unnamed.symm.trans named)).elim

/-- A write leaves storage in step, or storage is barren and refuses it. -/
theorem Steady.write (h : b.Steady) (w : Write) : (b.write w).1.InStep ∨
    ((b.write w).1.Barren ∧ ∃ fault, (b.write w).2 = .error fault) := by
  cases b with
  | memory held refusals =>
    left
    unfold Backend.write
    split <;> trivial
  | file d =>
    change InStep (.file (d.write none w).1) ∨
      (Barren (.file (d.write none w).1) ∧ ∃ fault, (d.write none w).2 = .error fault)
    rcases d.held_write w with ⟨ok, -⟩ | ⟨refused, same⟩
    · left
      rcases d.write_none_cases w with ⟨_, _, he, -⟩ | ⟨files, snapshot, -, named, placed, he⟩ <;>
        rw [he] at ok ⊢
      · cases ok
      · exact ⟨_, rfl, .inr ⟨named, (congrArg files (Path.place_of_namesFile named)).trans placed⟩⟩
    · cases named : Path.namesFile d.path with
      | false =>
        have barren : Barren (.file d) := h.elim (·.barren named) fun h => h
        refine .inr ⟨⟨?_, same.trans barren.2⟩, refused⟩
        rcases d.write_none_cases w with ⟨_, _, he, -⟩ | ⟨_, _, -, -, -, he⟩ <;> rw [he] <;>
          exact named
      | true =>
        obtain ⟨snapshot, known, hd⟩ := h.resolve_right fun barren =>
          Bool.false_ne_true (barren.1.symm.trans named)
        rcases d.write_none_cases w with ⟨files, _, he, kept⟩ | ⟨_, _, -, -, -, he⟩ <;>
          rw [he] at refused ⊢
        · have stays : files (Path.place d.path) = d.contents := by
            rw [Document.contents, Path.place_of_namesFile named]
            exact kept named
          refine .inl ⟨snapshot, known, hd.imp (fun hr => ?_) fun text => ?_⟩
          · rw [Document.read_none] at hr ⊢
            exact (Files.read_congr stays).trans hr
          · exact ⟨named, stays.trans text.2⟩
        · cases refused.choose_spec

theorem Steady.retry (h : b.Steady) (backoff : Nat) (w : Write) (n extra : Nat) :
    (b.retry backoff w n extra).1.InStep ∨ ((b.retry backoff w n extra).1.Barren ∧
      ∃ fault, (b.retry backoff w n extra).2.2 = .error fault) := by
  induction extra generalizing b n with
  | zero =>
    have hw := h.write w
    rw [Backend.retry.eq_def]
    rcases hb : b.write w with ⟨after, _ | _⟩ <;> simpa [hb] using hw
  | succ extra ih =>
    have hw := h.write w
    rcases hb : b.write w with ⟨after, fault | _⟩ <;> rw [hb] at hw
    · rw [retry_of_error backoff n extra hb]
      exact ih (hw.imp_right And.left) (n + 1)
    · rw [Backend.retry.eq_def]
      simpa [hb] using hw

theorem ofText?_empty : Snapshot.ofText? "" = none := by cbv

theorem read_text {text : String} (reads : Snapshot.ofText? text = some snapshot) :
    Disk.read (.text text) = .ok snapshot := by
  have written : text ≠ "" := by
    intro he
    rw [he, ofText?_empty] at reads
    cases reads
  simp [Disk.read, reads, written]

end Backend

namespace Store

variable {store after : Store} {lost : List Completion} {ended : Journey}

/-- Storage is in step, or it is barren and a completion was lost on it. -/
def Abreast (store : Store) : Prop :=
  store.backend.InStep ∨ store.backend.Barren ∧ store.ledger ≠ []

theorem Abreast.steady (h : store.Abreast) : store.backend.Steady := h.imp_right And.left

theorem steady_write (store : Store) (h : store.backend.Steady) (w : Write) :
    (store.write w).1.backend.InStep ∨
      ((store.write w).1.backend.Barren ∧ ∃ fault, (store.write w).2 = .error fault) := by
  refine (h.retry store.retry.backoff w 1 (store.attempts - 1)).imp_right ?_
  rintro ⟨barren, fault, refused⟩
  exact ⟨barren, .writeFailed w.name store.attempts fault, by simp [write, refused]⟩

theorem steady_save {j : Journey} {result : Except Fault Unit} (h : store.backend.Steady)
    (saved : store.save j = (after, result)) :
    after.backend.InStep ∨ (after.backend.Barren ∧ ∃ fault, result = .error fault) := by
  have hw := steady_write { store with active := upsert j store.active } h (.put j)
  rwa [show write _ _ = (after, result) from saved] at hw

theorem abreast_save {j : Journey} (h : store.Abreast) (saved : store.save j = (after, .ok ())) :
    after.Abreast :=
  (steady_save h.steady saved).imp_right fun ⟨_, _, refused⟩ => nomatch refused

/-- Whatever becomes of its writes, a completion is either written or lost. -/
theorem abreast_complete (h : store.backend.Steady) (ended : Journey) :
    (store.complete ended).1.Abreast := by
  have recorded : (store.complete ended).1.ledger ≠ [] := by
    rw [(completes_complete store ended).ledger]
    simp
  have hw := steady_write (store.filed ended) h (.complete ended.id (.ofJourney ended))
  rcases he : (store.filed ended).write (.complete ended.id (.ofJourney ended)) with
    ⟨refused, fault | _⟩ <;> rw [he] at hw
  · rw [complete_of_error he] at recorded ⊢
    exact (steady_write _ (hw.imp_right And.left) (.put ended)).imp_right
      fun barren => ⟨barren.1, recorded⟩
  · rw [complete_of_ok he] at recorded ⊢
    exact hw.imp_right fun barren => ⟨barren.1, recorded⟩

/-- From `store` to `after` storage gains as many records as journeys are completed. A completion
adds one at most, so none is refused altogether. -/
def Keeps (store after : Store) : Prop :=
  store.durable.records.length + after.ledger.length ≤
    after.durable.records.length + store.ledger.length

instance : Decidable (store.Keeps after) := inferInstanceAs (Decidable (_ ≤ _))

/-- Whether one of the two writes that complete a journey is accepted. -/
def accepts (store : Store) (ended : Journey) : Prop :=
  let held := { store with
    active := without ended.id store.active
    ledger := store.ledger ++ [Completion.ofJourney ended] }
  let completed := held.write (.complete ended.id (.ofJourney ended))
  completed.2 = .ok () ∨ (completed.1.write (.put ended)).2 = .ok ()

/-- A completion is kept exactly if one of its writes is accepted. -/
theorem keeps_complete_iff (terminal : ended.isTerminal = true)
    (distinct : DistinctIds store.durable.journeys)
    (others : ∀ k ∈ store.durable.journeys, k.id = ended.id → k.isTerminal = false) :
    store.Keeps (store.complete ended).1 ↔ store.accepts ended := by
  have hl : (store.complete ended).1.ledger.length = store.ledger.length + 1 := by
    simp [(completes_complete store ended).ledger]
  unfold Keeps
  rw [hl]
  let held := store.filed ended
  let w : Write := .complete ended.id (.ofJourney ended)
  have ha : store.accepts ended = ((held.write w).2 = .ok () ∨
      ((held.write w).1.write (.put ended)).2 = .ok ()) := rfl
  rw [ha]
  rcases held.durable_write w with ⟨hw, hd⟩ | ⟨⟨fault, hw⟩, hd⟩ <;>
    rcases hp : held.write w with ⟨written, result⟩ <;> rw [hp] at hw hd <;> obtain rfl := hw
  · have hd : written.durable = store.durable.apply w := hd
    have hr := (Snapshot.records_complete (.ofJourney ended) others).length_eq
    rw [complete_of_ok hp]
    refine iff_of_true ?_ (.inl rfl)
    dsimp only
    rw [hd, hr, List.length_append, List.length_singleton]
    omega
  · have hd : written.durable = store.durable := hd
    rw [complete_of_error hp]
    rcases written.durable_write (.put ended) with ⟨hw', hd'⟩ | ⟨⟨fault', hw'⟩, hd'⟩
    · have hr := (Snapshot.records_put_ended terminal distinct others).length_eq
      refine iff_of_true ?_ (.inr hw')
      dsimp only
      rw [hd', hd, hr, List.length_append, List.length_singleton]
      omega
    · refine iff_of_false ?_ (by simp [hw'])
      dsimp only
      rw [hd', hd]
      omega

/-- From `store` to `after` storage gains no records but those of journeys that are completed. -/
def Follows (store after : Store) : Prop :=
  after.durable.records.length + store.ledger.length ≤
    store.durable.records.length + after.ledger.length

theorem Follows.of_eq (records : after.durable.records = store.durable.records)
    (ledger : after.ledger = store.ledger) : store.Follows after :=
  Nat.le_of_eq (by rw [records, ledger])

theorem Follows.trans {between : Store} (first : store.Follows between)
    (later : between.Follows after) : store.Follows after := by
  unfold Follows at *
  omega

theorem Completes.follows (h : store.Completes ended after) (terminal : ended.isTerminal = true)
    (distinct : DistinctIds store.durable.journeys)
    (others : ∀ k ∈ store.durable.journeys, k.id = ended.id → k.isTerminal = false) :
    store.Follows after := by
  have gained : after.durable.records.length ≤ store.durable.records.length + 1 := by
    rcases h.durable with hd | hd | hd <;> rw [hd]
    · simp [(Snapshot.records_complete (.ofJourney ended) others).length_eq]
    · simp [(Snapshot.records_put_ended terminal distinct others).length_eq]
    · exact Nat.le_succ _
  unfold Follows
  rw [h.ledger, List.length_append, List.length_singleton]
  omega

/-- What is completed on the way is kept exactly if it is kept in each part of the way. -/
theorem keeps_iff_of_follows {between : Store} (first : store.Follows between)
    (later : between.Follows after) :
    store.Keeps after ↔ store.Keeps between ∧ between.Keeps after := by
  unfold Follows at first later
  unfold Keeps
  omega

/-- If nothing was lost before and everything is kept, nothing is lost. -/
theorem Keeps.lost_eq_nil (keeps : store.Keeps after) (before : store.Balanced [])
    (balanced : after.Balanced lost) : lost = [] := by
  have held := before.ledger.length_eq
  have owed := balanced.ledger.length_eq
  unfold Keeps at keeps
  simp only [List.length_append, List.append_nil] at held owed
  exact List.eq_nil_of_length_eq_zero (by omega)

end Store

end Engagement
