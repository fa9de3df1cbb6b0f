import Engagement.Proofs.Engine.Identity
import Engagement.Proofs.Store.Balance

/-! # Nothing is mixed up

While ids are fresh, the engine's mirror, its ledger and storage fit together: what is in the mirror
is stored as it stands, and records are held for what has ended, in storage too unless they were
lost.
-/

namespace Engagement

namespace Engine

variable {origin e e' : Engine} {snapshot : Snapshot} {j : Journey}

structure Intact (origin : Engine) (snapshot : Snapshot) (e : Engine) : Prop where
  sound : e.Sound
  accounted : Accounted origin snapshot e
  consistent : e.store.Consistent []
  balanced : ∃ lost, e.store.Balanced lost

namespace Intact

/-- A journey under way is not stored as ended. -/
theorem alive_of_active (h : Intact origin snapshot e) (hj : j ∈ e.store.active) :
    ∀ k ∈ e.store.durable.journeys, k.id = j.id → k.isTerminal = false := by
  intro k hk hid
  rw [h.consistent.distinct.eq_of_id hk (h.consistent.stored j hj) hid]
  exact h.sound.alive j hj

/-- The next id is not that of a journey in the mirror or in storage. -/
theorem next_new (h : Intact origin snapshot e)
    (fresh : origin.FreshIds snapshot (e.issued + 1)) :
    (∀ k ∈ e.store.active, k.id ≠ e.ids e.issued) ∧
      ∀ k ∈ e.store.durable.journeys, k.id ≠ e.ids e.issued := by
  have hn := fresh.next h.accounted.issued_le
  rw [← h.accounted.ids_eq] at hn
  have active : ∀ k ∈ e.store.active, k.id ≠ e.ids e.issued := by
    intro k hk he
    exact hn (he ▸ h.accounted.accounts.subset (List.mem_append_left _ (List.mem_map_of_mem hk)))
  refine ⟨active, ?_⟩
  intro k hk he
  rcases h.consistent.settled k hk with hk | ⟨r, hr, hid⟩ | hk
  · exact active k hk he
  · have hm := h.accounted.accounts.subset
      (List.mem_append_right _ (List.mem_map_of_mem hr))
    exact hn (by rwa [hid, he] at hm)
  · simp at hk

theorem puts {k : Journey} (h : Intact origin snapshot e) (puts : e.store.Puts k e'.store)
    (alive : k.isTerminal = false)
    (others : ∀ i ∈ e.store.durable.journeys, i.id = k.id → i.isTerminal = false) :
    e'.store.Consistent [] ∧ ∃ lost, e'.store.Balanced lost := by
  obtain ⟨lost, balanced⟩ := h.balanced
  exact ⟨h.consistent.puts h.sound.distinct puts, lost,
    balanced.puts h.consistent.distinct puts alive others⟩

theorem completes {k : Journey} {reason : ExitReason} {now : Instant}
    (h : Intact origin snapshot e) (completes : e.store.Completes (k.ended reason now) e'.store)
    (others : ∀ i ∈ e.store.durable.journeys, i.id = k.id → i.isTerminal = false) :
    e'.store.Consistent [] ∧ ∃ lost, e'.store.Balanced lost := by
  obtain ⟨lost, balanced⟩ := h.balanced
  exact ⟨h.consistent.completes completes, balanced.completes h.consistent.distinct completes
    (Journey.ended_isTerminal ..) others⟩

theorem quiet (h : Intact origin snapshot e) (q : Quiet e e') : Intact origin snapshot e' := by
  have hc : FreshChange e e' :=
    ⟨h.sound, fun hlt => (Nat.lt_irrefl _ (q.issued_eq ▸ hlt)).elim, .quiet q⟩
  have hs : e'.store.Consistent [] ∧ ∃ lost, e'.store.Balanced lost := by
    rcases q.store_cases with he | ⟨i, k, hi, continues, ⟨alive, puts⟩ | ⟨reason, completes⟩⟩
    · exact he ▸ ⟨h.consistent, h.balanced⟩
    · exact h.puts puts alive (continues.id ▸ h.alive_of_active hi)
    · exact h.completes completes (continues.id ▸ h.alive_of_active hi)
  exact ⟨h.sound.change (.quiet q), h.accounted.change hc, hs.1, hs.2⟩

theorem start (h : Intact origin snapshot e) (fresh : origin.FreshIds snapshot (e.issued + 1))
    (s : Start e j e') : Intact origin snapshot e' := by
  obtain ⟨active, stored⟩ := h.next_new fresh
  have others : ∀ i ∈ e.store.durable.journeys, i.id = j.id → i.isTerminal = false :=
    fun i hi he => (stored i hi (he.trans s.id_eq)).elim
  have hs : e'.store.Consistent [] ∧ ∃ lost, e'.store.Balanced lost := by
    obtain ⟨alive, puts | ⟨reason, completes⟩⟩ := s.store_cases
    · exact h.puts puts alive others
    · exact h.completes completes others
  exact ⟨h.sound.change (.start s), h.accounted.change ⟨h.sound, fun _ => active, .start s⟩,
    hs.1, hs.2⟩

theorem change (h : Intact origin snapshot e) (fresh : origin.FreshIds snapshot e'.issued)
    (c : Change e e') : Intact origin snapshot e' := by
  cases c with
  | quiet q => exact h.quiet q
  | start s => exact h.start (s.issued_eq ▸ fresh) s

theorem changes (h : Intact origin snapshot e) (fresh : origin.FreshIds snapshot e'.issued)
    (c : Changes e e') : Intact origin snapshot e' := by
  induction c with
  | refl => exact h
  | tail _ c ih => exact (ih (fresh.mono c.issued_le)).change fresh c

theorem takeIn (h : Intact origin snapshot e) (m : Message) :
    Intact origin snapshot (e.takeIn m) :=
  ⟨(Happens.takeIn e m).sound h.sound, h.accounted.takeIn m, by simpa using h.consistent,
    by simpa using h.balanced⟩

theorem drift (h : Intact origin snapshot e) (d : Drift e e') : Intact origin snapshot e' := by
  obtain ⟨lost, balanced⟩ := h.balanced
  refine ⟨d.sound h.sound, h.accounted.drift d, ?_, lost, ?_, ?_⟩
  · exact h.consistent.of_eq d.active d.ledger d.durable
  · rw [d.ledger, d.durable]
    exact balanced.ledger
  · rw [d.active, d.durable]
    exact balanced.alive

end Intact

/-- An engine that comes up is intact, whatever it went through before. -/
theorem intact_loaded (held : e.store.backend.load.2 = .ok snapshot)
    (distinct : DistinctIds snapshot.journeys) (campaigns : Table String Campaign)
    (installed : Bool) : Intact e snapshot (e.loaded campaigns installed) :=
  ⟨sound_loaded held campaigns installed, accounted_loaded held distinct campaigns installed,
    Store.consistent_recovered held distinct, [], Store.balanced_recovered held distinct⟩

end Engine

end Engagement
