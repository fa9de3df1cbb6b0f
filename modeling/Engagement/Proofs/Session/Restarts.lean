import Mathlib.Data.List.Induction
import Engagement.Proofs.Engine.Intact

/-! # Restarts

The engine may go down and come up again, itself or as a new one in front of the same data. As long
as no record is lost, the mirror and the ledger are found as they were. So a whole life of the
engine is a sequence of changes, with the journeys admitted on the way.
-/

namespace Engagement

/-- What befalls a session. -/
inductive Episode where
  | move (m : Move)
  /-- The engine goes down. Then it comes up again, or one set up anew does. -/
  | restart (anew : Bool)

namespace Session

variable (s : Session)

/-- The engine that comes up when the present one has gone down. -/
def successor (anew : Bool) : Engine := if anew then s.restart.engine else s.shutdown.engine

def undergo : Episode → Session
  | .move m => s.move m
  | .restart anew => raise (s.successor anew)

/-- The session that an engine has got to after coming up and some episodes. -/
def life (e : Engine) (eps : List Episode) : Session := eps.foldl undergo (raise e)

/-- The journeys admitted in an episode. -/
def admissions : Episode → List Admission
  | .move .deliver =>
    match s.mailbox with
    | [] => []
    | message :: _ => s.engine.admissions message
  | _ => []

/-- The journeys admitted in some episodes, one after the other. -/
def admitted (s : Session) : List Episode → List Admission
  | [] => []
  | ep :: eps => s.admissions ep ++ (s.undergo ep).admitted eps

theorem life_append (e : Engine) (eps : List Episode) (ep : Episode) :
    life e (eps ++ [ep]) = (life e eps).undergo ep := List.foldl_append

theorem admitted_append (eps : List Episode) (ep : Episode) :
    s.admitted (eps ++ [ep]) = s.admitted eps ++ (eps.foldl undergo s).admissions ep := by
  induction eps generalizing s with
  | nil => simp [admitted]
  | cons first eps ih => simp only [List.cons_append, admitted, ih, List.append_assoc,
      List.foldl_cons]

@[simp] theorem successor_settings (anew : Bool) :
    (s.successor anew).settings = s.engine.settings := by cases anew <;> rfl

@[simp] theorem successor_ids (anew : Bool) : (s.successor anew).ids = s.engine.ids := by
  cases anew <;> rfl

@[simp] theorem successor_issued (anew : Bool) :
    (s.successor anew).issued = s.engine.issued := by cases anew <;> rfl

variable {s}

/-- After a restart the engine finds what storage answers with. -/
theorem boots_successor_of_load {again : Snapshot}
    (loads : s.engine.store.backend.load.2 = .ok again) (anew : Bool) :
    (s.successor anew).BootsFrom again := by
  cases anew with
  | false => exact ⟨rfl, loads⟩
  | true => exact ⟨rfl, (Backend.load_reopen _).trans loads⟩

theorem boots_successor (survives : s.engine.store.Survives) (anew : Bool) :
    (s.successor anew).BootsFrom s.engine.store.durable :=
  boots_successor_of_load survives.held anew

end Session

namespace Engine

variable {origin e e' : Engine} {snapshot : Snapshot} {known : Campaign → Prop}
  {l l' : List Admission}

/-- How the mirror and the ledger have come about, with the journeys admitted on the way. Only known
campaigns are installed when a journey starts. -/
inductive Lives (origin : Engine) (snapshot : Snapshot) (known : Campaign → Prop) :
    List Admission → Engine → Prop
  | begin {e : Engine} (active : e.store.active = snapshot.journeys.filter (!·.isTerminal))
      (ledger : e.store.ledger = snapshot.records) (issued : e.issued = origin.issued) :
    Lives origin snapshot known [] e
  | quiet {e e' : Engine} {l : List Admission} (lives : Lives origin snapshot known l e)
      (intact : Intact origin snapshot e) (h : Quiet e e') : Lives origin snapshot known l e'
  | start {e e' : Engine} {l : List Admission} {j : Journey}
      (lives : Lives origin snapshot known l e) (intact : Intact origin snapshot e)
      (fresh : origin.FreshIds snapshot (e.issued + 1)) (settings : e.settings = origin.settings)
      (installed : ∀ key c, (key, c) ∈ e.campaigns → known c) (h : Start e j e') :
    Lives origin snapshot known (l ++ [⟨j, e.store⟩]) e'
  /-- Between two changes the mirror and the ledger stay, in some order. -/
  | keep {e e' : Engine} {l : List Admission} (lives : Lives origin snapshot known l e)
      (active : e'.store.active.Perm e.store.active) (ledger : e'.store.ledger.Perm e.store.ledger)
      (issued : e'.issued = e.issued) : Lives origin snapshot known l e'

/-- The journeys admitted account for all ids given. -/
theorem Lives.ids_eq (lives : Lives origin snapshot known l e) :
    l.map (·.journey.id) = origin.idsUpTo e.issued := by
  induction lives with
  | begin _ _ issued => simp [issued, idsUpTo]
  | quiet _ _ h ih => rw [h.issued_eq, ih]
  | start _ intact _ _ _ h ih =>
    rw [h.issued_eq, idsUpTo_succ intact.accounted.issued_le, List.map_append, ih,
      ← intact.accounted.ids_eq, ← h.id_eq]
    rfl
  | keep _ _ _ issued ih => rw [issued, ih]

/-- The engine has lived and is intact. -/
structure Living (origin : Engine) (snapshot : Snapshot) (known : Campaign → Prop)
    (l : List Admission) (e : Engine) : Prop where
  lives : Lives origin snapshot known l e
  intact : Intact origin snapshot e
  settings : e.settings = origin.settings

theorem Living.quiets (living : Living origin snapshot known l e) (h : Quiets e e') :
    Living origin snapshot known l e' := by
  induction h with
  | refl => exact living
  | tail _ h ih =>
    exact ⟨ih.lives.quiet ih.intact h, ih.intact.quiet h,
      (Change.quiet h).settings_eq.trans ih.settings⟩

theorem Living.traces (living : Living origin snapshot known l e)
    (fresh : origin.FreshIds snapshot e'.issued)
    (installed : ∀ key c, (key, c) ∈ e'.campaigns → known c) (traces : Traces e l' e') :
    Living origin snapshot known (l ++ l') e' := by
  induction traces with
  | refl => rwa [List.append_nil]
  | quiet _ h ih =>
    have ih := ih (h.issued_eq ▸ fresh) ((Change.quiet h).campaigns_eq ▸ installed)
    exact ih.quiets (.single h)
  | start _ h ih =>
    have hc := Change.start h
    have ih := ih (fresh.mono hc.issued_le) (hc.campaigns_eq ▸ installed)
    have next := h.issued_eq ▸ fresh
    rw [← List.append_assoc]
    exact ⟨ih.lives.start ih.intact next ih.settings (hc.campaigns_eq ▸ installed) h,
      ih.intact.start next h, hc.settings_eq.trans ih.settings⟩

theorem Living.takeIn (living : Living origin snapshot known l e) (m : Message) :
    Living origin snapshot known l (e.takeIn m) :=
  ⟨living.lives.keep (by simp) (by simp) (by simp), living.intact.takeIn m, by
    simpa using living.settings⟩

theorem Living.drift (living : Living origin snapshot known l e) (d : Drift e e') :
    Living origin snapshot known l e' :=
  ⟨living.lives.keep (.of_eq d.active) (.of_eq d.ledger) d.issued, living.intact.drift d,
    d.settings.trans living.settings⟩

/-- Coming up again an engine finds the mirror and the ledger as they were. -/
theorem Living.comesUp {again : Engine} (living : Living origin snapshot known l e)
    (survives : e.store.Survives) (boots : again.BootsFrom e.store.durable)
    (ids : again.ids = e.ids) (issued : again.issued = e.issued)
    (settings : again.settings = e.settings) (campaigns : Table String Campaign)
    (installed : Bool) : Living origin snapshot known l (again.loaded campaigns installed) := by
  have intact := living.intact
  obtain ⟨lost, balanced⟩ := intact.balanced
  obtain ⟨active, ledger⟩ := balanced.recovered_perm intact.consistent intact.sound.distinct
    intact.sound.alive survives boots.held
  refine ⟨living.lives.keep active ledger issued, ⟨sound_loaded boots.held campaigns installed, ?_,
    Store.consistent_recovered boots.held intact.consistent.distinct, [],
    Store.balanced_recovered boots.held intact.consistent.distinct⟩,
    settings.trans living.settings⟩
  refine ⟨ids.trans intact.accounted.ids_eq, issued ▸ intact.accounted.issued_le, ?_⟩
  have hp := (active.map (·.id)).append (ledger.map (·.journeyId))
  exact hp.trans (issued ▸ intact.accounted.accounts)

theorem living_loaded (held : e.store.backend.load.2 = .ok snapshot)
    (distinct : DistinctIds snapshot.journeys) (campaigns : Table String Campaign)
    (installed : Bool) : Living e snapshot known [] (e.loaded campaigns installed) :=
  ⟨.begin (Store.recovered_active held distinct) (Store.recovered_ledger held) rfl,
    intact_loaded held distinct campaigns installed, rfl⟩

end Engine

namespace Session

open Engine

variable {s : Session} {origin e : Engine} {snapshot : Snapshot} {known : Campaign → Prop}
  {l : List Admission} {eps : List Episode}

/-- A session stays up, also over a restart if storage can be read. -/
theorem Up.undergo_of_load (up : s.Up) (ep : Episode) (loads : ∀ anew, ep = .restart anew →
      ∃ again, s.engine.store.backend.load.2 = .ok again) :
    (s.undergo ep).Up ∧ (s.undergo ep).engine.ids = s.engine.ids ∧
      s.engine.issued ≤ (s.undergo ep).engine.issued := by
  cases ep with
  | move m =>
    have evolves := up.evolves_move m
    exact ⟨up.move m, evolves.ids_eq, evolves.issued_le⟩
  | restart anew =>
    obtain ⟨again, loads⟩ := loads anew rfl
    obtain ⟨_, _, quiets, up⟩ := (boots_successor_of_load loads anew).up_raise
    have ids := quiets.changes.ids_eq
    have hle := quiets.changes.issued_le
    exact ⟨up, ids.trans (s.successor_ids anew), s.successor_issued anew ▸ hle⟩

theorem Up.undergo (up : s.Up) (ep : Episode)
    (survives : ∀ anew, ep = .restart anew → s.engine.store.Survives) :
    (s.undergo ep).Up ∧ s.engine.issued ≤ (s.undergo ep).engine.issued := by
  have stays := up.undergo_of_load ep fun anew h => ⟨_, (survives anew h).held⟩
  exact ⟨stays.1, stays.2.2⟩

theorem living_undergo (up : s.Up) (living : Living origin snapshot known l s.engine)
    (ep : Episode) (survives : ∀ anew, ep = .restart anew → s.engine.store.Survives)
    (fresh : origin.FreshIds snapshot (s.undergo ep).engine.issued)
    (installed : ∀ key c, (key, c) ∈ (s.undergo ep).engine.campaigns → known c) :
    Living origin snapshot known (l ++ s.admissions ep) (s.undergo ep).engine := by
  cases ep with
  | restart anew =>
    have boots := boots_successor (survives anew rfl) anew
    obtain ⟨campaigns, profile, quiets, -⟩ := boots.up_raise
    rw [admissions, List.append_nil]
    · exact (living.comesUp (survives anew rfl) boots (by simp) (by simp) (by simp) campaigns
        profile).quiets quiets
    · rintro ⟨⟩
  | move m =>
    by_cases hd : m = .deliver
    · subst hd
      rcases hm : s.mailbox with _ | ⟨message, rest⟩
      · have hs : s.undergo (.move .deliver) = s := by simp [Session.undergo, move, deliver, hm]
        rw [hs, admissions, hm, List.append_nil]
        exact living
      · have he : (s.undergo (.move .deliver)).engine = _ := deliver_engine hm
        have hne : message ≠ .command .boot := fun h => up.once (by simp [hm, h])
        rw [he] at fresh installed ⊢
        rw [admissions, hm]
        exact (living.takeIn message).traces fresh installed (traces_handle up.sound hne)
    · rw [admissions, List.append_nil]
      · exact living.drift (s.move_drift hd)
      · rintro ⟨⟩
        exact hd rfl

variable (e eps) in
/-- Whenever the engine goes down, no record that it holds is lost. -/
def Lasting : Prop :=
  ∀ prior anew, prior ++ [Episode.restart anew] <+: eps → (life e prior).engine.store.Survives

theorem Lasting.init {ep : Episode} (lasting : Lasting e (eps ++ [ep])) : Lasting e eps :=
  fun prior anew h => lasting prior anew (h.trans (List.prefix_append _ _))

theorem Lasting.last {ep : Episode} (lasting : Lasting e (eps ++ [ep])) (anew : Bool)
    (h : ep = .restart anew) : (life e eps).engine.store.Survives :=
  lasting eps anew (h ▸ List.prefix_refl _)

/-- Nothing is lost in a life without restarts. -/
theorem lasting_moves (e : Engine) (ms : List Move) : Lasting e (ms.map .move) := by
  intro prior anew h
  have hm : Episode.restart anew ∈ ms.map Episode.move := h.subset (by simp)
  simp at hm

theorem up_life (boots : e.BootsFrom snapshot) (lasting : Lasting e eps) : (life e eps).Up := by
  induction eps using List.reverseRecOn with
  | nil =>
    obtain ⟨_, _, -, up⟩ := boots.up_raise
    exact up
  | append_singleton eps ep ih =>
    rw [life_append]
    exact ((ih lasting.init).undergo ep lasting.last).1

/-- Through its whole life the engine lives and is intact, as long as ids are fresh. -/
theorem living_life (boots : e.BootsFrom snapshot) (distinct : DistinctIds snapshot.journeys)
    (lasting : Lasting e eps) (fresh : e.FreshIds snapshot (life e eps).engine.issued)
    (installed : ∀ prior, prior <+: eps →
      ∀ key c, (key, c) ∈ (life e prior).engine.campaigns → known c) :
    Living e snapshot known ((raise e).admitted eps) (life e eps).engine := by
  induction eps using List.reverseRecOn with
  | nil =>
    obtain ⟨campaigns, profile, quiets, -⟩ := boots.up_raise
    exact (living_loaded boots.held distinct campaigns profile).quiets quiets
  | append_singleton eps ep ih =>
    have up := up_life boots lasting.init
    have hle := (up.undergo ep lasting.last).2
    have here := installed _ (List.prefix_refl _)
    rw [life_append] at fresh here ⊢
    rw [admitted_append]
    refine living_undergo up (ih lasting.init (fresh.mono hle) fun prior hp => ?_) ep lasting.last
      fresh here
    exact installed prior (hp.trans (List.prefix_append _ _))

end Session

end Engagement
