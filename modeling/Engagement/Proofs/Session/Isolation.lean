import Mathlib.Data.Set.Function
import Engagement.Proofs.Engine.Parallels
import Engagement.Proofs.Session.Restoration

/-! # Users do not meet

What the engine does on an event of one user passes by the journeys of all others, and depends on
nothing about them. It makes no difference which writes fail meanwhile.
-/

namespace Engagement

namespace Engine

variable {origin e e' : Engine} {snapshot : Snapshot} {user : String} {id : JourneyId} {n : Nat}

/-- The ids of other users' journeys: of those in the mirror, and of those in storage or with a
record, unless the user is in a journey with that id. -/
inductive Bystander (e : Engine) (user : String) : JourneyId → Prop
  | under_way {j : Journey} (held : j ∈ e.store.active) (other : j.distinctId ≠ user) :
      Bystander e user j.id
  | stored {j : Journey} (held : j ∈ e.store.durable.journeys) (other : j.distinctId ≠ user)
      (apart : ∀ k ∈ e.store.active, k.distinctId = user → k.id ≠ j.id) : Bystander e user j.id
  | ended {r : Completion} (held : r ∈ e.store.ledger) (other : r.distinctId ≠ user)
      (apart : ∀ j ∈ e.store.active, j.distinctId = user → j.id ≠ r.journeyId) :
      Bystander e user r.journeyId

theorem FreshIds.ne_of_held (fresh : e.FreshIds snapshot n) {m k : Nat}
    (held : id ∈ snapshot.ids ++ e.idsUpTo m) (began : e.issued ≤ m) (later : m ≤ k)
    (given : k < n) : e.ids k ≠ id := fun same =>
  (fresh.mono given).next (Nat.le_trans began later) (same ▸ mem_known_of_le later held)

namespace Bystander

/-- None of the user's journeys has the id. -/
theorem ne_own (bystander : e.Bystander user id) (sound : e.Sound) :
    ∀ j ∈ e.store.active, j.distinctId = user → j.id ≠ id := by
  intro j hj own same
  cases bystander with
  | under_way held other =>
    exact other (sound.distinct.eq_of_id hj held same ▸ own)
  | stored held other apart => exact apart j hj own same
  | ended held other apart => exact apart j hj own same

/-- The id was loaded or has been given. -/
theorem held (bystander : e.Bystander user id) (known : Known origin snapshot e) :
    id ∈ snapshot.ids ++ origin.idsUpTo e.issued := by
  cases bystander with
  | under_way held other => exact known.within.active _ held
  | stored held other apart => exact known.within.stored _ held
  | ended held other apart => exact known.within.recorded _ held

/-- An event passes by the journeys of other users. -/
theorem spares {event : HostEvent} (bystander : e.Bystander event.occurrence.distinctId id)
    (sound : e.Sound) (known : Known origin snapshot e)
    (fresh : origin.FreshIds snapshot (e.onEvent event).issued) : e.Spares id (e.onEvent event) :=
  spares_onEvent (bystander.ne_own sound) fun _ later given =>
    known.ids_eq ▸ fresh.ne_of_held (bystander.held known) known.issued_le later given

end Bystander

/-! ## Engines that differ in other users -/

/-- The engines differ in nothing that concerns the user: the campaigns and the time are the same,
and so are the user's journeys and records and what becomes of the coming writes. -/
structure AgreesFor (user : String) (e e' : Engine) : Prop where
  settings : e'.settings = e.settings
  now : e'.now = e.now
  elapsed : e'.elapsed = e.elapsed
  campaigns : e'.campaigns = e.campaigns
  profileLoaded : e'.profileLoaded = e.profileLoaded
  writes : e.store.Alike e'.store
  journeys : (e'.store.active.filter (·.distinctId = user)).Perm
    (e.store.active.filter (·.distinctId = user))
  records : e'.store.ledger.filter (·.distinctId = user) =
    e.store.ledger.filter (·.distinctId = user)

theorem AgreesFor.concurs (agrees : AgreesFor user e e') : Concurs user e e' where
  settings := agrees.settings
  now := agrees.now
  elapsed := agrees.elapsed
  campaigns := agrees.campaigns
  profileLoaded := agrees.profileLoaded
  store := agrees.writes
  inside := agrees.journeys.map _
  past := congrArg (List.map fun r : Completion => (r.campaignId, r.completedAt)) agrees.records

/-- Ids that are given anew can be replaced by any others. -/
theorem exists_renaming (fresh : origin.FreshIds snapshot n) (same : e.ids = origin.ids)
    (began : origin.issued ≤ e.issued) (e' : Engine) :
    ∃ ρ : JourneyId → JourneyId, ∀ k, e.issued + k < n →
      ρ (e.ids (e.issued + k)) = e'.ids (e'.issued + k) := by
  have injective : Set.InjOn (fun k => e.ids (e.issued + k)) {k | e.issued + k < n} := by
    intro k hk l hl alike
    have range {k : Nat} (hk : e.issued + k < n) :
        e.issued + k ∈ List.range' origin.issued (n - origin.issued) := by
      rw [List.mem_range'_1]
      omega
    rw [same] at alike
    exact Nat.add_left_cancel
      (List.inj_on_of_nodup_map fresh.distinct (range hk) (range hl) alike)
  refine ⟨fun id => e'.ids (e'.issued +
    Function.invFunOn (fun k => e.ids (e.issued + k)) {k | e.issued + k < n} id), ?_⟩
  intro k hk
  exact congrArg (fun k => e'.ids (e'.issued + k)) (injective.leftInvOn_invFunOn hk)

end Engine

namespace Session

open Engine

variable {e : Engine} {snapshot : Snapshot}

/-- The engine after some moves, with campaigns installed, when the coming writes will be refused as
listed. -/
def poised (e : Engine) (ms : List Move) (campaigns : Table String Campaign)
    (refusals : List Bool) : Engine :=
  { (after e (ms ++ [.refuse refusals])).engine with campaigns := campaigns }

theorem ready_poised (boots : e.BootsFrom snapshot) (ms : List Move)
    (campaigns : Table String Campaign) (refusals : List Bool)
    (fresh : e.FreshIds snapshot (poised e ms campaigns refusals).issued) :
    Ready e snapshot (poised e ms campaigns refusals) := by
  have sound := (boots.up (ms ++ [Move.refuse refusals])).sound
  have known := boots.known (ms ++ [Move.refuse refusals]) fresh
  have orderly := boots.orderly (ms ++ [Move.refuse refusals]) fresh
  exact ⟨⟨sound.distinct, sound.alive⟩, ⟨known.ids_eq, known.issued_le, known.within⟩,
    ⟨orderly.anchored, orderly.single, orderly.tasks, orderly.numbered⟩⟩

/-- Whichever campaigns are installed and whichever writes fail, an event changes nothing about the
journeys of other users, and all reports, records and journeys that come of it are its user's. Only
where a document lists two journeys under one id may one of them be stored in the place of another
user's. In engines that differ in other users alone what comes of the event is the same, but for the
ids that are given. -/
theorem users_isolated (boots : e.BootsFrom snapshot) (ms : List Move)
    (campaigns : Table String Campaign) (refusals : List Bool) (event : HostEvent)
    (fresh : e.FreshIds snapshot
      ((poised e ms campaigns refusals).handle (.command (.event event))).issued) :
    let user := event.occurrence.distinctId
    let engine := poised e ms campaigns refusals
    let handled := engine.handle (.command (.event event))
    (∀ id, engine.Bystander user id → engine.Spares id handled) ∧
    (DistinctIds snapshot.journeys → ∀ j ∈ engine.store.durable.journeys, j.distinctId ≠ user →
      engine.Spares j.id handled) ∧
    ∃ gain, engine.Gains gain handled ∧ gain.IsOf user ∧
      ∀ (e' : Engine) (snapshot' : Snapshot) (ms' : List Move), e'.BootsFrom snapshot' →
        let engine' := poised e' ms' campaigns refusals
        let handled' := engine'.handle (.command (.event event))
        e'.FreshIds snapshot' handled'.issued → AgreesFor user engine engine' →
        ∃ (ρ : JourneyId → JourneyId) (given : Nat),
          handled.issued = engine.issued + given ∧ handled'.issued = engine'.issued + given ∧
          (∀ n < given, ρ (engine.ids (engine.issued + n)) = engine'.ids (engine'.issued + n)) ∧
          engine'.Gains (gain.renamed ρ) handled' := by
  intro user engine handled
  have fresh_now := fresh.mono (changes_onEvent engine event).issued_le
  have ready : Ready e snapshot engine := ready_poised boots ms campaigns refusals fresh_now
  have spares (id : JourneyId) (bystander : engine.Bystander user id) : engine.Spares id handled :=
    bystander.spares ready.sound ready.known fresh
  refine ⟨spares, fun distinct j hj other => ?_, engine.gain event, gains_onEvent ready fresh,
    isOf_gain engine event, ?_⟩
  · have intact := intact_after boots distinct (ms ++ [Move.refuse refusals]) fresh_now
    refine spares j.id (.stored hj other fun k hk own same => ?_)
    exact other (intact.consistent.distinct.eq_of_id (intact.consistent.stored k hk) hj same ▸ own)
  intro e' snapshot' ms' boots' engine' handled' fresh' agrees
  have ready' : Ready e' snapshot' engine' := ready_poised boots' ms' campaigns refusals
    (fresh'.mono (changes_onEvent engine' event).issued_le)
  obtain ⟨ρ, named⟩ := exists_renaming fresh ready.known.ids_eq ready.known.issued_le engine'
  obtain ⟨same, given, count, count'⟩ := concurs_onEvent agrees.concurs ready ready' fresh fresh'
    named
  have within (n : Nat) (hn : n < given) : engine.issued + n < (engine.onEvent event).issued :=
    count ▸ Nat.add_lt_add_left hn _
  exact ⟨ρ, given, count, count', fun n hn => named n (within n hn),
    same ▸ gains_onEvent ready' fresh'⟩

/-- Bob waits for a minute to pass, and has been greeted. -/
def taken : Holdings where
  journeys := [{ Journey.start ⟨7⟩ (.greeting .once) "bob" none .epoch with
    status := .paused, resumeAt := Span.after? .epoch 60 }]
  ledger := [⟨"bob", "greeting", ⟨8⟩, .epoch, .completed⟩]

/-- Ann is greeted where Bob is as she is where she is alone, though a write is refused. -/
theorem greeted_alike :
    let campaigns := [("greeting", Campaign.greeting .once)]
    let opened : HostEvent := ⟨"opened", ⟨"opened", "ann", [], .epoch⟩⟩
    let among := poised (.inMemory taken .epoch) [] campaigns [true]
    let alone := poised (.inMemory .empty .epoch) [] campaigns [true]
    among.Spares ⟨7⟩ (among.handle (.command (.event opened))) ∧
    ∃ (gain : Gain) (ρ : JourneyId → JourneyId), gain.joined.length = 1 ∧
      among.Gains gain (among.handle (.command (.event opened))) ∧
      alone.Gains (gain.renamed ρ) (alone.handle (.command (.event opened))) := by
  intro campaigns opened among alone
  obtain ⟨spares, -, gain, gains, -, alike⟩ := users_isolated (bootsFrom_inMemory taken .epoch)
    [] campaigns [true] opened ⟨by decide +kernel, by decide +kernel⟩
  have agrees : AgreesFor "ann" among alone :=
    ⟨rfl, rfl, rfl, rfl, rfl, ⟨rfl, rfl, rfl⟩, .refl _, rfl⟩
  obtain ⟨ρ, -, -, -, -, gains'⟩ := alike (.inMemory .empty .epoch) .empty []
    (bootsFrom_inMemory _ _) ⟨by decide +kernel, by decide +kernel⟩ agrees
  have waits : ∃ j ∈ among.store.active, j.id = ⟨7⟩ ∧ j.distinctId = "bob" := by decide +kernel
  obtain ⟨j, hj, same, bobs⟩ := waits
  have bystander : among.Bystander "ann" j.id :=
    .under_way hj (bobs ▸ by decide)
  have one_more : (among.handle (.command (.event opened))).store.active.length =
      among.store.active.length + 1 := by decide +kernel
  rw [gains.active, List.length_append] at one_more
  exact ⟨spares _ (same ▸ bystander), gain, ρ, Nat.add_left_cancel one_more, gains, gains'⟩

end Session

end Engagement
