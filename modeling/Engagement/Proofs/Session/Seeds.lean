import Mathlib.Data.List.Infix
import Engagement.Proofs.Journey.RandomBranches
import Engagement.Proofs.Session.Findings
import Engagement.Proofs.Session.Restarts
import Engagement.Proofs.Store.Seeds

/-! # Stable random branches

A journey's context, with the seed of its random branches, stays the same as long as the journey is
known, in the mirror, in storage and with each step: through parks, conversions and restarts, also
from what storage has written and read again. So a random branch comes out the same whenever it is
executed.
-/

namespace Engagement

namespace Snapshot

/-- The context of the journey that is taken up under an id, or else of one that starts with it. -/
def contextOf (snapshot : Snapshot) (id : JourneyId) : Json.Fields :=
  ((lastUnderWay? id snapshot.journeys).map (·.context)).getD
    [(Journey.seedKey, .nat id.seed.toNat)]

variable {snapshot : Snapshot} {id : JourneyId}

theorem contextOf_of_lastUnderWay? {k : Journey}
    (found : lastUnderWay? id snapshot.journeys = some k) : snapshot.contextOf id = k.context := by
  simp [contextOf, found]

theorem contextOf_of_new (new : id ∉ snapshot.ids) :
    snapshot.contextOf id = [(Journey.seedKey, .nat id.seed.toNat)] := by
  rcases found : lastUnderWay? id snapshot.journeys with _ | k
  · simp [contextOf, found]
  · obtain ⟨hm, rfl, -⟩ := mem_of_lastUnderWay? found
    exact absurd (List.mem_append_left _ (List.mem_map_of_mem hm)) new

end Snapshot

namespace Engine

variable {context : JourneyId → Json.Fields} {origin e e' : Engine} {snapshot : Snapshot}
  {j : Journey}

/-- Each journey that is held, stored or has a step under way has the context of its id. -/
structure Seeded (context : JourneyId → Json.Fields) (e : Engine) : Prop where
  store : e.store.Seeded context
  flying : ∀ f ∈ e.flights, f.journey.context = context f.journey.id

/-- The journey that starts has the seed of its id. -/
theorem Start.context_eq (h : Start e j e') :
    j.context = [(Journey.seedKey, .nat j.id.seed.toNat)] := by
  cases h with
  | enter _ _ new => rw [new]; rfl
  | fail _ _ new => rw [new]; rfl

namespace Seeded

theorem change (seeded : e.Seeded context) (h : Change e e')
    (own : ∀ j, Start e j e' → j.context = context j.id) : e'.Seeded context := by
  constructor
  · cases h with
    | quiet h =>
      rcases h.store_cases with same | ⟨j, k, hj, continues, ⟨alive, puts⟩ | ⟨reason, completes⟩⟩
      · exact same ▸ seeded.store
      · refine seeded.store.puts puts ?_
        rw [continues.context, continues.id]
        exact seeded.store.held j hj
      · exact seeded.store.completes completes (k.ended_isTerminal reason e.now)
    | @start j h =>
      obtain ⟨-, puts | ⟨reason, completes⟩⟩ := h.store_cases
      · exact seeded.store.puts puts (own j h)
      · exact seeded.store.completes completes (j.ended_isTerminal reason e.now)
  · intro f hf
    rcases h.flights_cases with ⟨fewer, -⟩ | ⟨j, node, under_way, -, -, rfl⟩
    · exact seeded.flying f (fewer.subset hf)
    · rcases List.mem_append.mp hf with hf | hf
      · exact seeded.flying f hf
      · obtain rfl := List.mem_singleton.mp hf
        exact seeded.store.held j under_way

theorem changes (seeded : e.Seeded snapshot.contextOf) (h : Changes e e') (ids : e.ids = origin.ids)
    (issued : origin.issued ≤ e.issued) (fresh : origin.FreshIds snapshot e'.issued) :
    e'.Seeded snapshot.contextOf := by
  induction h with
  | refl => exact seeded
  | @tail a b hs h ih =>
    have seeded := ih (fresh.mono h.issued_le)
    refine seeded.change h fun j start => ?_
    have given : j.id ∈ origin.idsUpTo b.issued := by
      rw [start.id_eq, Changes.ids_eq hs, ids]
      exact mem_idsUpTo.mpr ⟨a.issued, Nat.le_trans issued (Changes.issued_le hs),
        start.issued_eq ▸ Nat.lt_succ_self _, rfl⟩
    rw [start.context_eq, Snapshot.contextOf_of_new (fresh.new _ given)]

theorem takeIn (seeded : e.Seeded context) (m : Message) : (e.takeIn m).Seeded context :=
  ⟨by simpa using seeded.store, fun f hf => seeded.flying f ((e.takeIn_flights m).subset hf)⟩

theorem drift (seeded : e.Seeded context) (h : Drift e e') : e'.Seeded context := by
  refine ⟨⟨fun j hj => seeded.store.held j (h.active ▸ hj), fun id k found => ?_⟩, fun f hf => ?_⟩
  · exact seeded.store.stored id k (h.durable ▸ found)
  · obtain ⟨g, hg, -, same, -⟩ := h.exists_flight hf
    exact same ▸ seeded.flying g hg

end Seeded

end Engine

namespace Session

open Engine

variable {s : Session} {origin e : Engine} {snapshot again : Snapshot} {eps prior : List Episode}

/-- Storage answers with what it holds, or with what is read of that once it is written. -/
def Rereads (held again : Snapshot) : Prop :=
  again = held ∨ Snapshot.decode? held.encode = some again

/-- Whenever the engine goes down, storage can be read again. -/
def Readable (e : Engine) (eps : List Episode) : Prop :=
  ∀ prior anew, prior ++ [Episode.restart anew] <+: eps →
    ∃ again, (life e prior).engine.store.backend.load.2 = .ok again ∧
      Rereads (life e prior).engine.store.durable again

namespace Readable

theorem mono (readable : Readable e eps) (hp : prior <+: eps) : Readable e prior :=
  fun before anew h => readable before anew (h.trans hp)

theorem last {ep : Episode} (readable : Readable e (eps ++ [ep])) (anew : Bool)
    (h : ep = .restart anew) : ∃ again, (life e eps).engine.store.backend.load.2 = .ok again ∧
      Rereads (life e eps).engine.store.durable again :=
  readable eps anew (h ▸ List.prefix_refl _)

theorem loads {ep : Episode} (readable : Readable e (eps ++ [ep])) (anew : Bool)
    (h : ep = .restart anew) : ∃ again, (life e eps).engine.store.backend.load.2 = .ok again :=
  (readable.last anew h).imp fun _ => And.left

/-- The session is up through its whole life. -/
theorem up_life (readable : Readable e eps) (boots : e.BootsFrom snapshot) :
    (life e eps).Up ∧ (life e eps).engine.ids = e.ids ∧ e.issued ≤ (life e eps).engine.issued := by
  induction eps using List.reverseRecOn with
  | nil =>
    obtain ⟨_, _, quiets, up⟩ := boots.up_raise
    have ids := quiets.changes.ids_eq
    have hle := quiets.changes.issued_le
    exact ⟨up, ids, hle⟩
  | append_singleton eps ep ih =>
    obtain ⟨up, ids, issued⟩ := ih (readable.mono (List.prefix_append _ _))
    obtain ⟨up', ids', issued'⟩ := up.undergo_of_load ep readable.loads
    rw [life_append]
    exact ⟨up', ids'.trans ids, Nat.le_trans issued issued'⟩

theorem issued_le (readable : Readable e eps) (boots : e.BootsFrom snapshot) (hp : prior <+: eps) :
    (life e prior).engine.issued ≤ (life e eps).engine.issued := by
  obtain ⟨later, rfl⟩ := hp
  induction later using List.reverseRecOn with
  | nil => simp
  | append_singleton later ep ih =>
    rw [← List.append_assoc] at readable ⊢
    have before := readable.mono (List.prefix_append _ _)
    have hle := ((before.up_life boots).1.undergo_of_load ep readable.loads).2.2
    rw [life_append]
    exact Nat.le_trans (ih before) hle

end Readable

/-- What is read again has the contexts of what was held. -/
theorem Rereads.own {held : Snapshot} {context : JourneyId → Json.Fields}
    (rereads : Rereads held again)
    (own : ∀ id k, lastUnderWay? id held.journeys = some k → k.context = context id) (id : JourneyId)
    (k : Journey) (found : lastUnderWay? id again.journeys = some k) : k.context = context id := by
  have recalls : List.Forall₂ Journey.Recalls held.journeys again.journeys := by
    rcases rereads with rfl | read
    · exact List.forall₂_same.mpr fun j _ => .refl j
    · exact Snapshot.recalls_of_decode? read
  have last := lastUnderWay?_recalls id recalls
  rw [found] at last
  rcases kept : lastUnderWay? id held.journeys with _ | j
  · rw [kept] at last
    cases last
  · rw [kept] at last
    cases last with
    | some recalled => exact recalled.context.trans (own id j kept)

theorem seeded_undergo (up : s.Up) (seeded : s.engine.Seeded snapshot.contextOf)
    (ids : s.engine.ids = origin.ids) (issued : origin.issued ≤ s.engine.issued) (ep : Episode)
    (last : ∀ anew, ep = .restart anew → ∃ again,
      s.engine.store.backend.load.2 = .ok again ∧ Rereads s.engine.store.durable again)
    (fresh : origin.FreshIds snapshot (s.undergo ep).engine.issued) :
    (s.undergo ep).engine.Seeded snapshot.contextOf := by
  cases ep with
  | move m =>
    have fresh : origin.FreshIds snapshot (s.move m).engine.issued := fresh
    change (s.move m).engine.Seeded snapshot.contextOf
    rcases up.move_cases m with drift | ⟨message, rest, -, changes, -, he, -⟩
    · exact seeded.drift drift
    · rw [he] at fresh ⊢
      exact (seeded.takeIn message).changes changes (by simpa using ids) (by simpa using issued)
        fresh
  | restart anew =>
    obtain ⟨again, loads, rereads⟩ := last anew rfl
    have boots := boots_successor_of_load loads anew
    obtain ⟨campaigns, installed, quiets, -⟩ := boots.up_raise
    have found : ((s.successor anew).loaded campaigns installed).Seeded snapshot.contextOf := by
      refine ⟨Store.seeded_recovered boots.held (rereads.own seeded.store.stored), fun f hf => ?_⟩
      have grounded : (s.successor anew).flights = [] := boots.flights_eq
      rw [loaded, grounded] at hf
      cases hf
    refine found.changes quiets.changes ((s.successor_ids anew).trans ids) ?_ fresh
    exact Nat.le_trans issued (Nat.le_of_eq (s.successor_issued anew).symm)

/-- Through its whole life the engine keeps to the contexts that storage first answered with. -/
theorem seeded_life (boots : e.BootsFrom snapshot) (readable : Readable e eps)
    (fresh : e.FreshIds snapshot (life e eps).engine.issued) :
    (life e eps).engine.Seeded snapshot.contextOf := by
  induction eps using List.reverseRecOn with
  | nil =>
    obtain ⟨campaigns, installed, quiets, -⟩ := boots.up_raise
    have found : (e.loaded campaigns installed).Seeded snapshot.contextOf := by
      refine ⟨Store.seeded_recovered boots.held fun id k found => ?_, fun f hf => ?_⟩
      · exact (Snapshot.contextOf_of_lastUnderWay? found).symm
      · rw [loaded, boots.flights_eq] at hf
        cases hf
    have same : (e.loaded campaigns installed).ids = e.ids := rfl
    exact found.changes quiets.changes same (Nat.le_refl _) fresh
  | append_singleton eps ep ih =>
    have before := readable.mono (List.prefix_append _ _)
    obtain ⟨up, ids, issued⟩ := before.up_life boots
    have hle := readable.issued_le boots (List.prefix_append eps [ep])
    rw [life_append] at fresh hle ⊢
    exact seeded_undergo up (ih before (fresh.mono hle)) ids issued ep readable.last fresh

theorem finds_of_randomBranch {f : Flight} {arms : List Arm} {result : StepResult}
    (branches : f.node.action = .randomBranch arms) (found : f.Finds result) :
    result = branchResult (drawn f.journey.randomSeed f.node.id arms) := by
  cases found with
  | @atOnce host _ _ h =>
    rw [Step.execute_randomBranch branches] at h
    exact (Progress.finished.inj (congrArg Prod.snd h)).symm
  | closing shows =>
    rw [branches] at shows
    cases shows

/-- Random branches are fair: the arm drawn is the first whose running total is greater than the
roll, it has a weight, and there is none only if no running total is greater, so not if one reaches
one hundred. They are stable: nothing but the seed, the name of the node and its arms decides, a
journey that is read as it was written has the same seed, and two steps of a journey at any two
points of a life with restarts draw the same arm. -/
theorem random_branches_fair_and_stable :
    (∀ (host : Host) (node : Node) (journey : Journey) (ctx : StepContext) (arms : List Arm),
      node.action = .randomBranch arms →
      let arm := drawn journey.randomSeed node.id arms
      Step.execute host node journey ctx = (host, .finished (branchResult arm)) ∧
      Draws (Roll.units (branchSeed journey.randomSeed node.id)) .zero arms arm ∧
      (∀ taken, arm = some taken → taken.weight.units ≠ 0) ∧
      (arm = none ↔ ∀ part, part <+: arms → (runningTotal .zero part).exceeds
        (Roll.units (branchSeed journey.randomSeed node.id)) = false) ∧
      ∀ part, part <+: arms → (runningTotal .zero part).ReachesHundred → arm ≠ none) ∧
    (∀ j k : Journey, Journey.decode? j.encode = some k → k.randomSeed = j.randomSeed) ∧
    ∀ (e : Engine) (snapshot : Snapshot) (eps : List Episode), e.BootsFrom snapshot →
      Readable e eps → e.FreshIds snapshot (life e eps).engine.issued →
      ∀ before after, before <+: eps → after <+: eps →
      ∀ f ∈ (life e before).engine.flights, ∀ g ∈ (life e after).engine.flights,
      f.journey.id = g.journey.id → f.node.id = g.node.id →
      ∀ arms, f.node.action = .randomBranch arms → g.node.action = .randomBranch arms →
      ∀ result result', f.Finds result → g.Finds result' → result = result' := by
  refine ⟨?_, fun j k read => (Journey.recalls_of_decode? read).randomSeed, ?_⟩
  · intro host node journey ctx arms branches arm
    have draws := draws_drawn journey.randomSeed node.id arms
    refine ⟨Step.execute_randomBranch branches host journey ctx, draws, fun taken h => ?_,
      draws.eq_none_iff, fun part first reaches => ?_⟩
    · rw [show drawn journey.randomSeed node.id arms = some taken from h] at draws
      exact draws.has_weight
    · exact Option.isSome_iff_ne_none.mp (isSome_drawn first reaches)
  · intro e snapshot eps boots readable fresh before after hb ha f hf g hg same here arms hfa hga
      result result' found found'
    have seeded {prior : List Episode} (hp : prior <+: eps) :
        (life e prior).engine.Seeded snapshot.contextOf :=
      seeded_life boots (readable.mono hp) (fresh.mono (readable.issued_le boots hp))
    have seed : f.journey.randomSeed = g.journey.randomSeed := by
      unfold Journey.randomSeed
      rw [(seeded hb).flying f hf, (seeded ha).flying g hg, same]
    rw [finds_of_randomBranch hfa found, finds_of_randomBranch hga found', seed, here]

/-- The arms of a random branch, with their weights. -/
def weights? : Action → Option (List (Binary64 × String))
  | .randomBranch arms => some (arms.map fun arm => (arm.weight, arm.next))
  | _ => none

theorem eq_of_weights? {action : Action} {arms : List Arm}
    (h : weights? action = some (arms.map fun arm => (arm.weight, arm.next))) :
    action = .randomBranch arms := by
  unfold weights? at h
  split at h
  · refine congrArg _ (List.map_injective_iff.mpr ?_ (Option.some.inj h))
    intro a b same
    cases a
    cases b
    cases same
    rfl
  · cases h

/-- Arms of weight 0, 64 and 32. -/
def raffle : List Arm :=
  [⟨.zero false, "never"⟩, ⟨⟨false, twoTo 1080, by decide +kernel, by decide +kernel⟩, "often"⟩,
    ⟨⟨false, twoTo 1079, by decide +kernel, by decide +kernel⟩, "seldom"⟩]

def raffling : Campaign where
  id := "raffle"
  name := "Raffle"
  version := 1
  trigger := .event "open" none
  entry := "draw"
  nodes := [⟨"draw", [], .randomBranch raffle⟩, ⟨"never", [], .exit none⟩, ⟨"often", [], .exit none⟩,
    ⟨"seldom", [], .exit none⟩]
  goal := none
  exitPolicy := .never
  anchor := .journeyStart
  reentry := .once

def raffler : Engine :=
  .new .default (.new .epoch "ann" { Profile.empty with campaigns := [raffling.encode] })
    (.memory .empty []) fun n => ⟨BitVec.ofNat 128 n⟩

def drawsOnce : List Episode := [.move (.send (.start raffling "ann" none)), .move .deliver]

def drawsAgain : List Episode := drawsOnce ++ [.restart true]

theorem drawsAgain_readable : Readable raffler drawsAgain := by
  have memory : ∀ prior ∈ drawsAgain.inits,
      (life raffler prior).engine.store.backend.isMemory = true := by
    decide +kernel
  intro prior anew h
  have hp := (List.mem_inits _ _).mpr ((List.prefix_append prior [.restart anew]).trans h)
  exact ⟨_, Backend.load_of_isMemory (memory prior hp), .inl rfl⟩

/-- A journey comes to a raffle, and again after a restart. -/
theorem redrawn_after_restart :
    let before := (life raffler drawsOnce).engine.flights
    let after := (life raffler drawsAgain).engine.flights
    before.length = 1 ∧ after.length = 1 ∧ ∀ f ∈ before, ∀ g ∈ after,
      ∀ result result', f.Finds result → g.Finds result' → result = result' := by
  intro before after
  have draws : (∀ f ∈ before, f.journey.id = ⟨0⟩ ∧ f.node.id = "draw" ∧
        weights? f.node.action = some (raffle.map fun arm => (arm.weight, arm.next))) ∧
      ∀ g ∈ after, g.journey.id = ⟨0⟩ ∧ g.node.id = "draw" ∧
        weights? g.node.action = some (raffle.map fun arm => (arm.weight, arm.next)) := by
    decide +kernel
  refine ⟨by decide +kernel, by decide +kernel, fun f hf g hg result result' found found' => ?_⟩
  obtain ⟨id, node, arms⟩ := draws.1 f hf
  obtain ⟨id', node', arms'⟩ := draws.2 g hg
  have boots : raffler.BootsFrom .empty := bootsFrom_new _ _ _ rfl
  exact random_branches_fair_and_stable.2.2 raffler .empty drawsAgain boots drawsAgain_readable
    ⟨by decide +kernel, by decide +kernel⟩ drawsOnce drawsAgain (List.prefix_append _ _)
    (List.prefix_refl _) f hf g hg (id.trans id'.symm) (node.trans node'.symm) raffle
    (eq_of_weights? arms) (eq_of_weights? arms') result result' found found'

end Session

end Engagement
