import Engagement.Proofs.Engine.Gate
import Engagement.Proofs.Engine.Intact

/-! # What the gate sees

The gate decides on what the mirror and the ledger hold, not on what storage holds. For an engine
that has come up this makes no difference: whoever storage held then, or holds by now, is found in
the mirror or in the ledger.
-/

namespace Engagement

namespace Engine

variable {origin e e' : Engine} {snapshot : Snapshot} {p : String → String → Bool} {j : Journey}

/-- All that storage held of the chosen when the engine came up is in the mirror or in the ledger, and
something is if storage holds something of them now. -/
structure Sees (p : String → String → Bool) (snapshot : Snapshot) (e : Engine) : Prop where
  loaded : snapshot.tally p ≤ e.store.under p + e.store.past p
  stored : 0 < e.store.durable.tally p → 0 < e.store.under p + e.store.past p

/-- No change loses a journey. -/
theorem Intact.tally_le (intact : Intact origin snapshot e)
    (fresh : origin.FreshIds snapshot e'.issued) (c : Change e e') :
    e.store.under p + e.store.past p ≤ e'.store.under p + e'.store.past p := by
  cases c with
  | quiet q => exact Nat.le_of_eq (q.tally intact.sound).2.symm
  | start s =>
    rw [(s.tally (intact.next_new (s.issued_eq ▸ fresh)).1).2]
    exact Nat.le_add_right _ _

namespace Sees

theorem of_eq (sees : Sees p snapshot e) (active : e'.store.active = e.store.active)
    (ledger : e'.store.ledger = e.store.ledger) (durable : e'.store.durable = e.store.durable) :
    Sees p snapshot e' := by
  constructor <;> simp only [Store.under, Store.past, active, ledger, durable]
  exacts [sees.loaded, sees.stored]

theorem takeIn (sees : Sees p snapshot e) (m : Message) : Sees p snapshot (e.takeIn m) :=
  sees.of_eq (by simp) (by simp) (by simp)

/-- What a change brings into storage is seen by then, and what was seen before stays so. -/
theorem change (sees : Sees p snapshot e) (intact : Intact origin snapshot e)
    (fresh : origin.FreshIds snapshot e'.issued) (c : Change e e') : Sees p snapshot e' := by
  have le := intact.tally_le (p := p) fresh c
  refine ⟨Nat.le_trans sees.loaded le, fun held => ?_⟩
  have before : 0 < e.store.durable.tally p → 0 < e'.store.under p + e'.store.past p :=
    fun held => Nat.lt_of_lt_of_le (sees.stored held) le
  rcases c.store_cases with same | ⟨j, -, puts⟩ | ⟨ended, completes⟩
  · exact before (same ▸ held)
  · exact (puts.tally_pos held).elim before fun under => Nat.add_pos_left under _
  · exact (completes.tally_pos held).elim before fun past => Nat.add_pos_right _ past

theorem changes (sees : Sees p snapshot e) (intact : Intact origin snapshot e)
    (fresh : origin.FreshIds snapshot e'.issued) (c : Changes e e') : Sees p snapshot e' := by
  induction c with
  | refl => exact sees
  | tail first c ih =>
    have fresh' := fresh.mono c.issued_le
    exact (ih fresh').change (intact.changes fresh' first) fresh c

end Sees

/-- An engine that comes up sees all that storage holds. -/
theorem sees_loaded (held : e.store.backend.load.2 = .ok snapshot)
    (distinct : DistinctIds snapshot.journeys) (campaigns : Table String Campaign)
    (installed : Bool) (p : String → String → Bool) :
    Sees p snapshot (e.loaded campaigns installed) :=
  ⟨Nat.le_of_eq (Store.tally_recovered held distinct p).symm,
    (Store.balanced_recovered held distinct).tally_pos⟩

/-- Of a user who is let into a campaign that is to be entered once, storage held and holds nothing in
this campaign. -/
theorem Start.unheld (h : Start e j e') (sees : ∀ p, Sees p snapshot e) :
    ∃ key campaign, (key, campaign) ∈ e.campaigns ∧ j.campaignId = campaign.id ∧
      (campaign.reentry = .once →
        snapshot.tally (Store.ofPair j.campaignId j.distinctId) = 0 ∧
        e.store.durable.tally (Store.ofPair j.campaignId j.distinctId) = 0) := by
  obtain ⟨key, campaign, known, id_eq, -, admits⟩ := h.admits
  refine ⟨key, campaign, known, id_eq, fun once => ?_⟩
  have alone := admits.alone (by simp [once])
  have first := admits.first once
  rw [← id_eq] at alone first
  obtain ⟨loaded, stored⟩ := sees (Store.ofPair j.campaignId j.distinctId)
  omega

end Engine

end Engagement
