import Engagement.Proofs.Session.Restarts
import Engagement.Proofs.Store.Retention

/-! # A restart finds what was held

As long as one of the two writes of each completion is accepted, a store that is opened anew in
front of the same data comes to hold the journeys and the records that were held before, whichever
other writes fail.
-/

namespace Engagement

theorem Store.Abreast.refusing {store store' : Store} (h : store.Abreast)
    (ledger : store'.ledger = store.ledger) {refusals : List Bool}
    (backend : store'.backend = store.backend.refusing refusals) : store'.Abreast := by
  unfold Abreast at h ⊢
  rw [backend, ledger]
  cases hb : store.backend with
  | memory held refused => exact .inl trivial
  | file d => rwa [hb] at h

namespace Engine

variable {origin e e' : Engine} {snapshot : Snapshot}

theorem abreast_finish {store : Store} {j : Journey} {reason : ExitReason}
    (h : e.store.Abreast) (alive : j.isTerminal = false)
    (store_eq : store = e.store ∨ ∃ fault, e.store.save j = (store, .error fault)) :
    ({ e with store := store }.finish j reason).store.Abreast := by
  rw [finish_eq _ alive]
  apply Store.abreast_complete
  rcases store_eq with rfl | ⟨fault, refused⟩
  · exact h.steady
  · exact (Store.steady_save h.steady refused).imp_right And.left

theorem Change.abreast (c : Change e e') (h : e.store.Abreast) : e'.store.Abreast := by
  cases c with
  | quiet c =>
    cases c with
    | aside c => rwa [c.store_eq]
    | launch => exact h
    | advance _ _ _ _ _ saved => exact Store.abreast_save h saved
    | amend _ _ _ saved => exact Store.abreast_save h saved
    | finish _ alive _ store_eq => exact abreast_finish h alive store_eq
  | start c =>
    cases c with
    | enter known admitted new saved =>
      rw [report_store, checkGoal_store]
      exact Store.abreast_save h saved
    | fail known admitted new refused =>
      exact abreast_finish (e := { e with issued := e.issued + 1 }) h (new ▸ rfl)
        (.inr ⟨_, refused⟩)

theorem Happens.abreast (c : Happens e e') (h : e.store.Abreast) : e'.store.Abreast := by
  cases c with
  | takeIn m => simpa using h
  | change _ c => exact c.abreast h
  | drift d =>
    rcases d.backend with hb | ⟨refusals, hb⟩
    · unfold Store.Abreast
      rwa [hb, d.ledger]
    · exact h.refusing d.ledger hb

theorem Evolves.abreast (c : Evolves e e') (h : e.store.Abreast) : e'.store.Abreast := by
  induction c with
  | refl => exact h
  | tail _ c ih => exact c.abreast ih

/-! ## What is kept on the way -/

/-- Only a completion adds to the records in storage. -/
theorem Intact.follows_change (h : Intact origin snapshot e)
    (fresh : origin.FreshIds snapshot e'.issued) (c : Change e e') : e.store.Follows e'.store := by
  have put : ∀ {k : Journey}, e.store.Puts k e'.store → k.isTerminal = false →
      (∀ i ∈ e.store.durable.journeys, i.id = k.id → i.isTerminal = false) →
      e.store.Follows e'.store := by
    intro k puts alive others
    exact .of_eq (by rw [puts.durable, Snapshot.records_put alive others]) puts.ledger
  have completed : ∀ {k : Journey} {reason : ExitReason} {now : Instant},
      e.store.Completes (k.ended reason now) e'.store →
      (∀ i ∈ e.store.durable.journeys, i.id = k.id → i.isTerminal = false) →
      e.store.Follows e'.store := fun completes others =>
    completes.follows (Journey.ended_isTerminal ..) h.consistent.distinct others
  cases c with
  | quiet q =>
    rcases q.store_cases with he | ⟨i, k, hi, continues, ⟨alive, puts⟩ | ⟨reason, completes⟩⟩
    · exact .of_eq (by rw [he]) (by rw [he])
    · exact put puts alive (continues.id ▸ h.alive_of_active hi)
    · exact completed completes (continues.id ▸ h.alive_of_active hi)
  | @start j s =>
    have new := (h.next_new (s.issued_eq ▸ fresh)).2
    have others : ∀ i ∈ e.store.durable.journeys, i.id = j.id → i.isTerminal = false :=
      fun i hi he => (new i hi (he.trans s.id_eq)).elim
    obtain ⟨alive, puts | ⟨reason, completes⟩⟩ := s.store_cases
    · exact put puts alive others
    · exact completed completes others

theorem Intact.follows (h : Intact origin snapshot e) (fresh : origin.FreshIds snapshot e'.issued)
    (c : Changes e e') : e.store.Follows e'.store := by
  induction c with
  | refl => exact .of_eq rfl rfl
  | tail hs c ih =>
    have fresh' := fresh.mono c.issued_le
    exact (ih fresh').trans ((h.changes fresh' hs).follows_change fresh c)

/-- A sequence of changes keeps what it completes exactly if each of its parts does. So nothing is
made up for later: each single completion has to be kept. -/
theorem Intact.keeps_iff {between : Engine} (h : Intact origin snapshot e)
    (fresh : origin.FreshIds snapshot e'.issued) (first : Changes e between)
    (later : Changes between e') :
    e.store.Keeps e'.store ↔ e.store.Keeps between.store ∧ between.store.Keeps e'.store := by
  have fresh' := fresh.mono (Changes.issued_le later)
  exact Store.keeps_iff_of_follows (h.follows fresh' first)
    ((h.changes fresh' first).follows fresh later)

end Engine

namespace Session

open Engine

variable {e : Engine} {snapshot : Snapshot} {ms : List Move}

/-- What is completed while the engine comes up, and then in each move, is kept. -/
structure Retains (e : Engine) (ms : List Move) : Prop where
  coming_up : e.store.recovered.Keeps (raise e).engine.store
  moves : ∀ n < ms.length,
    (after e (ms.take n)).engine.store.Keeps (after e (ms.take (n + 1))).engine.store

theorem Retains.init {m : Move} (retains : Retains e (ms ++ [m])) : Retains e ms := by
  refine ⟨retains.coming_up, fun n hn => ?_⟩
  have h := retains.moves n (by simp; omega)
  rwa [List.take_append_of_le_length (by omega), List.take_append_of_le_length (by omega)] at h

theorem Retains.last {m : Move} (retains : Retains e (ms ++ [m])) :
    (after e ms).engine.store.Keeps (after e (ms ++ [m])).engine.store := by
  have h := retains.moves ms.length (by simp)
  rwa [List.take_left, List.take_of_length_le (by simp)] at h

theorem life_moves (e : Engine) (ms : List Move) : life e (ms.map .move) = after e ms :=
  List.foldl_map

/-- Between two moves nothing is mixed up. -/
theorem intact_after (boots : e.BootsFrom snapshot) (distinct : DistinctIds snapshot.journeys)
    (ms : List Move) (fresh : e.FreshIds snapshot (after e ms).engine.issued) :
    Intact e snapshot (after e ms).engine := by
  have living : Living e snapshot (fun _ => True) _ (life e (ms.map .move)).engine :=
    living_life boots distinct (lasting_moves e ms) ((life_moves e ms).symm ▸ fresh)
      fun _ _ _ _ _ => trivial
  exact life_moves e ms ▸ living.intact

end Session

end Engagement
