import Engagement.Proofs.Engine.Checks
import Engagement.Proofs.Engine.Sight
import Engagement.Proofs.Session.Courses
import Engagement.Proofs.Session.Reentry

/-! # Starts around coming up

Commands may wait before and behind the one that tells the engine to come up. What is handled before
it meets an empty mirror. From then on whoever is let in once was not held by storage, neither when the
engine came up nor at the time.
-/

namespace Engagement

namespace Engine

variable {e e' : Engine} {campaign : Campaign} {key : String}

/-- Each campaign is installed under its id, and once. -/
structure Catalogued (e : Engine) : Prop where
  unique : e.campaigns.Unique
  keyed : e.Keyed

namespace Catalogued

theorem of_eq (h : e.Catalogued) (same : e'.campaigns = e.campaigns) : e'.Catalogued := by
  constructor <;> simp only [Keyed, same]
  exacts [h.unique, h.keyed]

theorem takeIn (h : e.Catalogued) (m : Message) : (e.takeIn m).Catalogued :=
  ⟨unique_takeIn h.unique m, h.keyed.takeIn m⟩

theorem boot (h : e.Catalogued) : (e.handle (.command .boot)).Catalogued := by
  rcases e.boot_campaigns with same | ⟨profile, same⟩
  · exact h.of_eq same
  · exact of_eq ⟨unique_install profile, fun _ hc => (admissible_install hc).1⟩ same

theorem get?_eq (h : e.Catalogued) (known : (key, campaign) ∈ e.campaigns) :
    e.campaigns.get? campaign.id = some campaign := by
  obtain rfl : key = campaign.id := h.keyed _ known
  exact h.unique.get?_eq known

end Catalogued

end Engine

namespace Session

open Engine

variable {s : Session} {origin e : Engine} {snapshot : Snapshot} {message : Message} {a : Admission}
  {rest : List Message}

theorem catalogued_course (down : e.halt = e) (sound : e.Sound) (inputs : List Input) :
    (course e inputs).engine.Catalogued := by
  induction inputs using List.reverseRecOn with
  | nil =>
    have none : e.campaigns = [] := (congrArg Engine.campaigns down).symm
    exact ⟨by simp [course, opened, new, none, Table.Unique], by simp [course, opened, new, none, Keyed]⟩
  | append_singleton inputs input ih =>
    rw [course_snoc]
    rcases (course e inputs).take_cases input with ⟨-, d⟩ | ⟨message, -, he⟩
    · exact ih.of_eq d.campaigns
    · rw [he]
      by_cases hm : message = .command .boot
      · exact hm ▸ ih.boot
      · exact (ih.takeIn message).of_eq (changes_handle (sound_course sound inputs) hm).campaigns_eq

/-! ## Told once -/

/-- The session of an engine that runs, is told to come up after some moves, and goes on with others. -/
def told (e : Engine) (before later : List Move) : Session :=
  (((opened e).moves before).post (.command .boot)).moves later

theorem told_eq_course (e : Engine) (before later : List Move) :
    told e before later = course e (before.map .move ++ .boot :: later.map .move) := by
  rw [course, List.foldl_append, List.foldl_cons, ← moves_eq_foldl_take, ← moves_eq_foldl_take]
  rfl

/-- No message behind one that tells the engine to come up does so again. -/
def Single (s : Session) : Prop :=
  s.mailbox.Pairwise fun first later => first = .command .boot → later ≠ .command .boot

theorem Single.moves (single : s.Single) (ms : List Move) : (s.moves ms).Single := by
  induction ms generalizing s with
  | nil => exact single
  | cons m ms ih =>
    apply ih
    rcases s.move_mailbox_sublist_or_append m with sublist | ⟨message, other, appended⟩
    · exact single.sublist sublist
    · rw [Single, appended, List.pairwise_append]
      refine ⟨single, List.pairwise_singleton _ _, fun first _ later hl _ => ?_⟩
      exact List.mem_singleton.mp hl ▸ other

theorem single_told (sound : e.Sound) (before later : List Move) : (told e before later).Single := by
  have up : (opened e).Up := ⟨sound, List.not_mem_nil⟩
  have unasked : Message.command .boot ∉ ((opened e).moves before).mailbox := (up.moves before).once
  refine Single.moves ?_ later
  refine List.pairwise_append.mpr ⟨?_, List.pairwise_singleton _ _, fun first hf _ _ asks => ?_⟩
  · exact List.pairwise_of_forall_mem_list fun first hf _ _ asks => absurd (asks ▸ hf) unasked
  · exact absurd (asks ▸ hf) unasked

theorem once_told (sound : e.Sound) (before later : List Move)
    (turn : (told e before later).mailbox = .command .boot :: rest) :
    Message.command .boot ∉ rest := by
  have single := single_told sound before later
  rw [Single, turn, List.pairwise_cons] at single
  exact fun again => single.1 _ again rfl rfl

theorem catalogued_told (down : e.halt = e) (sound : e.Sound) (before later : List Move) :
    (told e before later).engine.Catalogued :=
  told_eq_course e before later ▸ catalogued_course down sound _

/-! ## From coming up on -/

theorem up_boot (sound : s.engine.Sound) (turn : s.mailbox = .command .boot :: rest)
    (once : Message.command .boot ∉ rest) : s.deliver.Up :=
  ⟨deliver_engine turn ▸ sound.boot, deliver_mailbox turn ▸ once⟩

theorem Up.issued_le_handle (up : s.Up) (hm : s.mailbox = message :: rest) :
    s.engine.issued ≤ (s.engine.handle message).issued := by
  have other : message ≠ .command .boot := fun h => up.once (by simp [hm, h])
  have le := (changes_handle up.sound other).issued_le
  rwa [takeIn_issued] at le

/-- The engine has come up, nothing is mixed up, and the gate sees all that storage held and holds. -/
structure Guarded (origin : Engine) (snapshot : Snapshot) (s : Session) : Prop where
  up : s.Up
  intact : Intact origin snapshot s.engine
  sees : ∀ p, Sees p snapshot s.engine

/-- Wherever in the mailbox the engine was told so, by coming up it sees what storage holds. -/
theorem guarded_boot (sound : s.engine.Sound) (turn : s.mailbox = .command .boot :: rest)
    (once : Message.command .boot ∉ rest) (held : s.engine.store.backend.load.2 = .ok snapshot)
    (distinct : DistinctIds snapshot.journeys)
    (fresh : s.engine.FreshIds snapshot s.deliver.engine.issued) :
    Guarded s.engine snapshot s.deliver := by
  have he := deliver_engine turn
  obtain ⟨campaigns, installed, greeted⟩ := s.engine.greeted_eq
  have changes : Changes (s.engine.loaded campaigns installed) s.deliver.engine := by
    rw [he, loaded, ← greeted]
    exact (calms_boot held).changes
  have loaded := intact_loaded held distinct campaigns installed
  exact ⟨up_boot sound turn once, loaded.changes fresh changes,
    fun p => (sees_loaded held distinct campaigns installed p).changes loaded fresh changes⟩

namespace Guarded

theorem move (guarded : Guarded origin snapshot s) (m : Move)
    (fresh : origin.FreshIds snapshot (s.move m).engine.issued) :
    Guarded origin snapshot (s.move m) := by
  have up := guarded.up.move m
  rcases guarded.up.move_cases m with d | ⟨message, rest, hm, changes, rfl, he, -⟩
  · exact ⟨up, guarded.intact.drift d, fun p => (guarded.sees p).of_eq d.active d.ledger d.durable⟩
  · rw [he] at fresh
    have intact := guarded.intact.takeIn message
    exact ⟨up, he ▸ intact.changes fresh changes,
      fun p => he ▸ ((guarded.sees p).takeIn message).changes intact fresh changes⟩

theorem moves (guarded : Guarded origin snapshot s) (ms : List Move)
    (fresh : origin.FreshIds snapshot (s.moves ms).engine.issued) :
    Guarded origin snapshot (s.moves ms) := by
  induction ms generalizing s with
  | nil => exact guarded
  | cons m ms ih =>
    have le := ((guarded.up.move m).evolves ms).issued_le
    exact ih (guarded.move m (fresh.mono le)) fresh

/-- A journey that starts is one of an installed campaign. If this is to be entered once, storage held
and holds nothing of the user in it. -/
theorem unheld (guarded : Guarded origin snapshot s) (catalogued : s.engine.Catalogued)
    (hm : s.mailbox = message :: rest)
    (fresh : origin.FreshIds snapshot (s.engine.handle message).issued)
    (admitted : a ∈ s.engine.admissions message) :
    let pair := Store.ofPair a.journey.campaignId a.journey.distinctId
    ∃ campaign,
      (s.engine.takeIn message).campaigns.get? a.journey.campaignId = some campaign ∧
      (campaign.reentry = .once →
        snapshot.tally pair = 0 ∧ a.store.durable.tally pair = 0) := by
  intro pair
  have other : message ≠ .command .boot := fun h => guarded.up.once (by simp [hm, h])
  obtain ⟨e₁, e₂, first, start, later, store⟩ :=
    (traces_handle guarded.up.sound other).exists_start admitted
  have le : e₁.issued ≤ (s.engine.handle message).issued :=
    Nat.le_trans (Change.start start).issued_le later.issued_le
  have sees : ∀ p, Sees p snapshot e₁ := fun p =>
    ((guarded.sees p).takeIn message).changes (guarded.intact.takeIn message) (fresh.mono le) first
  obtain ⟨key, campaign, known, id_eq, unheld⟩ := start.unheld sees
  rw [first.campaigns_eq] at known
  exact ⟨campaign, id_eq ▸ (catalogued.takeIn message).get?_eq known, store ▸ unheld⟩

end Guarded

/-- Whatever reaches an engine that runs, before it is told to come up and after, waiting before that
command or behind it: once it has come up, a journey that starts in a campaign that is to be entered
once is of a user of whom storage held nothing in this campaign when the engine came up, and holds
nothing when it starts. -/
theorem unheld_from_start_up (down : e.halt = e) (sound : e.Sound)
    (before between later : List Move)
    (turn : (told e before between).mailbox.head? = some (.command .boot))
    (held : (told e before between).engine.store.backend.load.2 = .ok snapshot)
    (distinct : DistinctIds snapshot.journeys) :
    let s := told e before (between ++ .deliver :: later)
    s.mailbox.head? = some message →
    (told e before between).engine.FreshIds snapshot (s.engine.handle message).issued →
    a ∈ s.engine.admissions message →
    let pair := Store.ofPair a.journey.campaignId a.journey.distinctId
    ∃ campaign,
      (s.engine.takeIn message).campaigns.get? a.journey.campaignId = some campaign ∧
      (campaign.reentry = .once →
        snapshot.tally pair = 0 ∧ a.store.durable.tally pair = 0) := by
  intro s waiting fresh admitted
  obtain ⟨rest, hb⟩ := List.head?_eq_some_iff.mp turn
  obtain ⟨others, hm⟩ := List.head?_eq_some_iff.mp waiting
  have queued : (told e before between).engine.Sound :=
    told_eq_course e before between ▸ sound_course sound _
  have once := once_told sound before between hb
  have on : s = (told e before between).deliver.moves later := moves_append _ _ _
  have up : (told e before between).deliver.Up := up_boot queued hb once
  have handled := (up.moves later).issued_le_handle (on ▸ hm)
  have booted := guarded_boot queued hb once held distinct
    (fresh.mono (Nat.le_trans (up.evolves later).issued_le (on ▸ handled)))
  have guarded : Guarded (told e before between).engine snapshot s :=
    on ▸ booted.moves later (on ▸ fresh.mono (on ▸ handled))
  exact guarded.unheld (catalogued_told down sound before _) hm fresh admitted

/-- The request to greet ann once. -/
def request : Command := .start (.greeting .once) "ann" none

/-- Another user is greeted. -/
def greetsBob : List Move := [.send (.start (.greeting .once) "bob" none), .deliver]

/-- Bob is greeted before the engine comes up. Ann asks to be greeted before that, too, but behind the
command, and is let in. -/
theorem greeted_behind_start_up :
    let queued := told (inMemory .empty .epoch) greetsBob [.send request]
    let s := told (inMemory .empty .epoch) greetsBob [.send request, .deliver]
    0 < queued.engine.store.durable.tally (Store.ofPair "greeting" "bob") ∧
    ∃ a ∈ s.engine.admissions (.command request),
      let pair := Store.ofPair a.journey.campaignId a.journey.distinctId
      queued.engine.store.durable.tally pair = 0 ∧ a.store.durable.tally pair = 0 := by
  intro queued s
  have turn : queued.mailbox.head? = some (.command .boot) := by with_unfolding_all rfl
  have waiting : s.mailbox.head? = some (.command request) := by with_unfolding_all rfl
  have memory : queued.engine.store.backend.isMemory = true := by decide +kernel
  have found : ∃ a ∈ s.engine.admissions (.command request),
      ((s.engine.takeIn (.command request)).campaigns.get? a.journey.campaignId).map (·.reentry) =
        some .once := by decide +kernel
  obtain ⟨a, admitted, policy⟩ := found
  obtain ⟨campaign, installed, unheld⟩ := unheld_from_start_up rfl (sound_new ..) greetsBob
    [.send request] [] turn (Backend.load_of_isMemory memory) (by decide +kernel) waiting
    ⟨by decide +kernel, by decide +kernel⟩ admitted
  have once : some campaign.reentry = some .once :=
    (congrArg (Option.map Campaign.reentry) installed).symm.trans policy
  exact ⟨by decide +kernel, a, admitted, unheld (Option.some.inj once)⟩

/-- On the next message a journey would start in a campaign that is to be entered once, of a user of
whom storage holds something there. -/
def Readmits (s : Session) : Prop :=
  ∃ message, s.mailbox.head? = some message ∧ ∃ a ∈ s.engine.admissions message,
    ((s.engine.takeIn message).campaigns.get? a.journey.campaignId).map (·.reentry) = some .once ∧
    0 < a.store.durable.tally (Store.ofPair a.journey.campaignId a.journey.distinctId)

/-- A journey of ann's waits. -/
def waits : Holdings where
  journeys := [waiting "greeting"]
  ledger := []

/-- When what waits before the command to come up is handled, journeys start of users whom storage
holds. So they do when a document lists two journeys under one id. -/
theorem readmits_around_start_up :
    (¬ ∀ (e : Engine) (snapshot : Snapshot) (before later : List Move), e.halt = e → e.Sound →
      e.store.backend.load.2 = .ok snapshot → DistinctIds snapshot.journeys →
      ¬ (told e before later).Readmits) ∧
    (¬ ∀ (e : Engine) (snapshot : Snapshot) (before between later : List Move), e.halt = e →
      e.Sound → (told e before between).mailbox.head? = some (.command .boot) →
      (told e before between).engine.store.backend.load.2 = .ok snapshot →
      ¬ (told e before (between ++ .deliver :: later)).Readmits) := by
  constructor
  · intro unheld
    exact unheld (inMemory waits .epoch) waits [.send request] [] rfl (sound_new ..) rfl
      waits.distinct ⟨.command request, rfl, by decide +kernel⟩
  · intro unheld
    have loads := load_written mixedUp_read
    have backend : (told (onDocument mixedUp .epoch) [] []).engine.store.backend =
        .file (written mixedUp none) := rfl
    refine unheld (onDocument mixedUp .epoch) _ [] [] [.send request] rfl (sound_new ..) rfl
      (by rw [backend, loads]) ?_
    have raised (e : Engine) : told e [] ([] ++ .deliver :: [.send request]) =
        (raise e).moves [.send request] := rfl
    rw [raised, raise_of_load (e := onDocument mixedUp .epoch) loads]
    exact ⟨.command request, rfl, by decide +kernel⟩

end Session

end Engagement
