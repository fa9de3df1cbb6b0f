import Engagement.Proofs.Engine.Arrivals

/-! # Dismissing content

When a journey ends whose step is under way, the content on screen is dismissed if the campaigns
that are installed say that the journey is at a node that shows content.
-/

namespace Engagement

namespace Engine

variable {e e' : Engine} {j k : Journey} {f : Flight}

/-- How often content was dismissed. -/
def dismissals (e : Engine) : Nat := e.host.presenter.dismissals

theorem finish_dismissals (e : Engine) (alive : j.isTerminal = false) (reason : ExitReason) :
    (e.finish j reason).dismissals =
      e.dismissals + if e.isFlying j.id ∧ e.atContent j then 1 else 0 := by
  have hd : (e.finish j reason).dismissals = (e.abandon j).dismissals := by
    rw [finish_eq e alive]
    rfl
  rw [hd]
  unfold abandon isFlying
  rcases e.flight? j.id with _ | flight
  · simp
  · dsimp only [dismissals]
    by_cases hc : e.atContent j = true <;> cases flight.phase <;>
      simp [hc, Presenter.dismiss, Presenter.close]

theorem atContent_congr (campaigns : e'.campaigns = e.campaigns)
    (campaignId : k.campaignId = j.campaignId) (node : k.node = j.node) :
    e'.atContent k = e.atContent j := by
  unfold atContent node?
  rw [campaigns, campaignId, node]

/-- From `e` to `e'` content is dismissed at most once for each journey that ends. -/
structure Dismisses (e e' : Engine) : Prop where
  grows : e.dismissals ≤ e'.dismissals
  ended : e'.dismissals + e.store.ledger.length ≤ e.dismissals + e'.store.ledger.length

theorem Dismisses.of_eq (dismissals : e'.dismissals = e.dismissals)
    (ledger : e'.store.ledger = e.store.ledger) : e.Dismisses e' :=
  ⟨Nat.le_of_eq dismissals.symm, Nat.le_of_eq (by rw [dismissals, ledger])⟩

theorem dismisses_finish {store : Store} (alive : j.isTerminal = false)
    (store_eq : store = e.store ∨ ∃ fault, e.store.save j = (store, .error fault))
    (reason : ExitReason) :
    e.Dismisses ({ e with store := store }.finish j reason) := by
  have hd := finish_dismissals { e with store := store } alive reason
  have hs : dismissals { e with store := store } = e.dismissals := rfl
  have hl := (completes_finish (e := { e with store := store }) alive reason store_eq).ledger
  constructor
  · rw [hd, hs]
    exact Nat.le_add_right _ _
  · rw [hd, hs, hl, List.length_append, List.length_singleton]
    split <;> omega

theorem Change.dismisses (h : Change e e') : e.Dismisses e' := by
  cases h with
  | quiet h =>
    cases h with
    | aside h => exact .of_eq (by rw [h.frame]; rfl) (by rw [h.store_eq])
    | launch => exact .of_eq rfl rfl
    | advance _ _ _ _ _ saved => exact .of_eq rfl (Store.puts_of_save saved).ledger
    | amend _ _ _ saved => exact .of_eq rfl (Store.puts_of_save saved).ledger
    | finish _ alive _ store_eq => exact dismisses_finish alive store_eq _
  | @start j h =>
    cases h with
    | @enter _ _ _ _ store known admitted new saved =>
      obtain ⟨tasks, last, h, -⟩ := checkGoal_eq { e with issued := e.issued + 1, store := store } j
      rw [h]
      exact .of_eq rfl (Store.puts_of_save saved).ledger
    | fail known admitted new refused =>
      have alive : j.isTerminal = false := new ▸ rfl
      obtain ⟨grows, ended⟩ := dismisses_finish (e := { e with issued := e.issued + 1 })
        alive (.inr ⟨_, refused⟩) (.errored _)
      exact ⟨grows, ended⟩

theorem Changes.dismisses (h : Changes e e') : e.Dismisses e' := by
  induction h with
  | refl => exact .of_eq rfl rfl
  | tail _ h ih =>
    obtain ⟨grows, ended⟩ := h.dismisses
    exact ⟨Nat.le_trans ih.grows grows, by have := ih.ended; omega⟩

/-- The step is under way for a journey in the mirror that is at a node that shows content. -/
structure Occupies (e : Engine) (f : Flight) : Prop where
  flying : f ∈ e.flights
  content : ∃ j ∈ e.store.active, j.id = f.journey.id ∧ e.atContent j = true

/-- A step at content stays under way there until its journey ends, which dismisses the content. -/
theorem Occupies.change (occupies : e.Occupies f) (c : FreshChange e e') :
    e'.Occupies f ∨ e.dismissals < e'.dismissals := by
  obtain ⟨hf, i, hi, hid, hc⟩ := occupies
  have stays : ∀ k ∈ e'.store.active, k.id = i.id → k.campaignId = i.campaignId →
      k.node = i.node → e'.Occupies f := by
    intro k hk hkid hkc hkn
    have hkf := hkid.trans hid
    refine ⟨?_, k, hk, hkf, (atContent_congr c.change.campaigns_eq hkc hkn).trans hc⟩
    exact (c.change.flight_stays hf).resolve_right fun gone => gone k hk hkf
  have unmoved : i ∈ e'.store.active → e'.Occupies f := fun hi => stays i hi rfl rfl rfl
  cases c.change with
  | quiet h =>
    cases h with
    | aside h => exact .inl (unmoved (h.store_eq ▸ hi))
    | launch => exact .inl (unmoved hi)
    | @advance j next kind store under_way alive free arrival on_way saved =>
      have hne : i.id ≠ j.id := hid ▸ isFlying_eq_false.mp free f hf
      have active := (Store.puts_of_save saved).active
      exact .inl (unmoved (active ▸ mem_upsert_of_ne hi hne))
    | @amend j k store under_way alive amends saved =>
      have active := (Store.puts_of_save saved).active
      by_cases hij : i.id = k.id
      · obtain rfl := c.sound.distinct.eq_of_id hi under_way (hij.trans amends.continues.id)
        have node : k.node = i.node := by cases amends <;> rfl
        exact .inl (stays k (active ▸ mem_upsert_self k _) amends.continues.id
          amends.continues.campaignId node)
      · exact .inl (unmoved (active ▸ mem_upsert_of_ne hi hij))
    | @finish j k store reason under_way alive continues store_eq placed =>
      by_cases hij : i.id = k.id
      · -- The journey whose step is under way ends where it stands.
        right
        obtain rfl := c.sound.distinct.eq_of_id hi under_way (hij.trans continues.id)
        have flying : e.isFlying k.id = true := isFlying_iff.mpr ⟨f, hf, hid.symm.trans hij⟩
        have node : k.node = i.node := by
          rcases placed with placed | free
          · exact placed
          · rw [← hij, free] at flying
            cases flying
        have content : atContent { e with store := store } k = true :=
          (atContent_congr (e := e) rfl continues.campaignId node).trans hc
        rw [finish_dismissals { e with store := store } alive, if_pos ⟨flying, content⟩]
        exact Nat.lt_succ_self _
      · have active := (completes_finish (e := { e with store := store }) alive reason
          store_eq).active
        exact .inl (unmoved (active ▸ mem_without.mpr ⟨hi, hij⟩))
  | @start j h =>
    have new : i.id ≠ j.id := by
      rw [h.id_eq]
      exact c.new (h.issued_eq ▸ Nat.lt_succ_self _) i hi
    left
    apply unmoved
    obtain ⟨-, puts | ⟨reason, completes⟩⟩ := h.store_cases
    · exact puts.active ▸ mem_upsert_of_ne hi new
    · exact completes.active ▸ mem_without.mpr ⟨hi, new⟩

theorem Occupies.changes (occupies : e.Occupies f) (c : FreshChanges e e') :
    e'.Occupies f ∨ e.dismissals < e'.dismissals := by
  induction c with
  | refl => exact .inl occupies
  | tail hs h ih =>
    have hle := (Changes.dismisses (FreshChanges.changes hs)).grows
    rcases ih with ih | hlt
    · exact (ih.change h).imp_right (Nat.lt_of_le_of_lt hle)
    · exact .inr (Nat.lt_of_lt_of_le hlt h.change.dismisses.grows)

end Engine

end Engagement
