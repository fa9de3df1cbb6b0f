import Mathlib.Data.List.Infix
import Engagement.Proofs.Engine.Gate
import Engagement.Proofs.Session.Restarts
import Engagement.Proofs.Store.Retention

/-! # Entering again

What the gate decides on one start adds up over the whole life of the engine, from wherever the
starts come and however often the engine goes down.
-/

namespace Engagement

namespace Engine

variable {origin e e' : Engine} {snapshot : Snapshot} {known : Campaign → Prop} {j : Journey}
  {l : List Admission} {p : String → String → Bool} {n : Nat} {policy : Reentry}

/-- A journey may start in a known campaign. -/
structure Entry (origin : Engine) (known : Campaign → Prop) (e : Engine) (j : Journey)
    (campaign : Campaign) : Prop where
  settings : e.settings = origin.settings
  known : known campaign
  campaignId : j.campaignId = campaign.id
  startedAt : j.startedAt = e.now
  admits : e.Admits campaign j.distinctId

theorem Start.entry (h : Start e j e') (settings : e.settings = origin.settings)
    (installed : ∀ key c, (key, c) ∈ e.campaigns → known c) :
    ∃ campaign, Entry origin known e j campaign := by
  obtain ⟨key, campaign, hk, hid, hstart, admits⟩ := h.admits
  exact ⟨campaign, settings, installed key campaign hk, hid, hstart, admits⟩

theorem Entry.campaignId_eq {id user : String} {campaign : Campaign}
    (entry : Entry origin known e j campaign) (h : j.fits (Store.ofPair id user) = true) :
    campaign.id = id ∧ j.distinctId = user := by
  simpa [Journey.fits, Store.ofPair, entry.campaignId] using h

namespace Lives

variable (lives : Lives origin snapshot known l e)

include lives

/-- The journeys loaded and admitted are under way or have ended. -/
theorem tally : e.store.under p + e.store.past p =
    snapshot.tally p + l.countP (·.journey.fits p) := by
  induction lives with
  | begin active ledger _ =>
    unfold Store.under Store.past
    rw [active, ledger, Snapshot.tally_eq, List.countP_nil, Nat.add_zero]
  | quiet _ intact h ih => rw [(h.tally intact.sound).2, ih]
  | start _ intact fresh _ _ h ih =>
    rw [(h.tally (intact.next_new fresh).1).2, ih, List.countP_append, List.countP_singleton]
    split <;> simp_all [Nat.add_assoc]
  | keep _ active ledger _ ih =>
    have ha := active.countP_eq (·.fits p)
    have hl := ledger.countP_eq (·.fits p)
    exact (congrArg₂ (· + ·) ha hl).trans ih

/-- A limit that the gate heeds is kept, if it was when the engine came up. -/
theorem under_le (loaded : (snapshot.journeys.filter (!·.isTerminal)).countP (·.fits p) ≤ n)
    (gate : ∀ e j campaign, Entry origin known e j campaign → j.fits p = true →
      e.store.under p < n) : e.store.under p ≤ n := by
  induction lives with
  | begin active _ _ =>
    unfold Store.under
    rwa [active]
  | quiet _ intact h ih => exact Nat.le_trans (h.tally intact.sound).1 ih
  | @start e₁ _ _ j _ intact fresh settings installed h ih =>
    obtain ⟨campaign, entry⟩ := h.entry settings installed
    have hle := (h.tally (p := p) (intact.next_new fresh).1).1
    rcases hp : j.fits p with _ | _
    · rw [hp] at hle
      exact Nat.le_trans hle ih
    · rw [hp] at hle
      exact Nat.le_trans hle (gate e₁ j campaign entry hp)
  | keep _ active _ _ ih =>
    have ha := active.countP_eq (·.fits p)
    exact Nat.le_trans (Nat.le_of_eq ha) ih

/-- If the gate is closed to all that have entered before, one enters at most. -/
theorem once (gate : ∀ e j campaign, Entry origin known e j campaign → j.fits p = true →
      e.store.under p = 0 ∧ e.store.past p = 0) :
    l.countP (·.journey.fits p) ≤ 1 ∧
      (0 < snapshot.tally p → l.countP (·.journey.fits p) = 0) := by
  induction lives with
  | begin => simp
  | quiet _ _ _ ih => exact ih
  | @start e₁ _ _ j lives _ _ settings installed h ih =>
    obtain ⟨campaign, entry⟩ := h.entry settings installed
    rw [List.countP_append, List.countP_singleton]
    rcases hp : j.fits p with _ | _
    · simpa [hp] using ih
    · obtain ⟨hu, hpast⟩ := gate e₁ j campaign entry hp
      have ht := lives.tally (p := p)
      simp only [if_true]
      omega
  | keep _ _ _ _ ih => exact ih

theorem forall_admitted {Q : Admission → Prop}
    (h : ∀ e j campaign, Entry origin known e j campaign → Q ⟨j, e.store⟩) : ∀ a ∈ l, Q a := by
  induction lives with
  | begin => simp
  | quiet _ _ _ ih => exact ih
  | start _ _ _ settings installed start ih =>
    obtain ⟨campaign, entry⟩ := start.entry settings installed
    intro a ha
    rcases List.mem_append.mp ha with ha | ha
    · exact ih a ha
    · rw [List.mem_singleton.mp ha]
      exact h _ _ _ entry
  | keep _ _ _ _ ih => exact ih

/-! ## What each policy promises -/

theorem room (user : String) : (e.store.activeFor user).length ≤
    max ((snapshot.journeys.filter (!·.isTerminal)).countP (·.fits (Store.ofUser user)))
      origin.settings.maxActive := by
  rw [← Store.under_ofUser]
  apply lives.under_le (Nat.le_max_left _ _)
  intro e j campaign entry hj
  have hu : j.distinctId = user := by simpa [Journey.fits, Store.ofUser] using hj
  have room := entry.admits.room
  rw [hu, entry.settings] at room
  exact Nat.lt_of_lt_of_le room (Nat.le_max_right _ _)

variable {id user : String} (uniform : ∀ c, known c → c.id = id → c.reentry = policy)

include uniform

theorem alone (shared : policy ≠ .concurrent)
    (loaded : (snapshot.journeys.filter (!·.isTerminal)).countP
      (·.fits (Store.ofPair id user)) ≤ 1) :
    ((e.store.activeFor user).filter (·.campaignId = id)).length ≤ 1 := by
  rw [← Store.under_ofPair]
  apply lives.under_le loaded
  intro e j campaign entry hj
  obtain ⟨hid, hu⟩ := entry.campaignId_eq hj
  have alone := entry.admits.alone (uniform campaign entry.known hid ▸ shared)
  rw [hid, hu] at alone
  omega

theorem first (once : policy = .once) : l.countP (·.journey.fits (Store.ofPair id user)) ≤ 1 ∧
    (0 < snapshot.tally (Store.ofPair id user) →
      ∀ a ∈ l, a.journey.fits (Store.ofPair id user) = false) := by
  obtain ⟨one, none⟩ := lives.once (p := Store.ofPair id user) fun e j campaign entry hj => by
    obtain ⟨hid, hu⟩ := entry.campaignId_eq hj
    have hr : campaign.reentry = .once := (uniform campaign entry.known hid).trans once
    have alone := entry.admits.alone (by simp [hr])
    have first := entry.admits.first hr
    rw [hid, hu] at alone first
    exact ⟨alone, first⟩
  refine ⟨one, ?_⟩
  intro before a ha
  simpa using List.countP_eq_zero.mp (none before) a ha

theorem rested {seconds : Nat} (cooldown : policy = .cooldown seconds) :
    ∀ a ∈ l, a.journey.fits (Store.ofPair id user) = true → ∀ r ∈ a.store.ledgerFor user id,
      (∀ later ∈ a.store.ledgerFor user id, ¬ later.completedAt.Overruns r.completedAt) →
      ∃ t, Span.after? r.completedAt seconds = some t ∧ t ≤ a.journey.startedAt := by
  refine lives.forall_admitted ?_
  intro e j campaign entry hj r hr plain
  obtain ⟨hid, hu⟩ := entry.campaignId_eq hj
  have rested := entry.admits.rested seconds ((uniform campaign entry.known hid).trans cooldown)
  rw [hid, hu] at rested
  rw [entry.startedAt]
  exact rested_of_cooldownOver rested hr plain

end Lives

end Engine

namespace Session

open Engine

variable {e : Engine} {snapshot : Snapshot} {eps : List Episode} {policy : Reentry}

/-- Over a whole life in which every definition of a campaign has the same policy: but for a policy
that is concurrent, a user who was in it once at most never is in it twice. If the policy is once, a
user enters once at most, and not at all who was in it before. If it is a cooldown, no one enters
before it is over for each record of theirs, unless another record lies in the leap second that
extends the second of that record. A user is in no more campaigns than at first or than the limit
says. The journeys admitted account for all ids given. -/
theorem reentry_gated (boots : e.BootsFrom snapshot) (distinct : DistinctIds snapshot.journeys)
    (lasting : Lasting e eps) (fresh : e.FreshIds snapshot (life e eps).engine.issued)
    (id user : String)
    (uniform : ∀ prior, prior <+: eps → ∀ key c, (key, c) ∈ (life e prior).engine.campaigns →
      c.id = id → c.reentry = policy) :
    let pair := Store.ofPair id user
    let store := (life e eps).engine.store
    let underWay := snapshot.journeys.filter (!·.isTerminal)
    let admitted := (raise e).admitted eps
    (policy ≠ .concurrent → underWay.countP (·.fits pair) ≤ 1 →
      ((store.activeFor user).filter (·.campaignId = id)).length ≤ 1) ∧
    (policy = .once → admitted.countP (·.journey.fits pair) ≤ 1 ∧
      (0 < snapshot.tally pair → ∀ a ∈ admitted, a.journey.fits pair = false)) ∧
    (∀ seconds, policy = .cooldown seconds → ∀ a ∈ admitted, a.journey.fits pair = true →
      ∀ r ∈ a.store.ledgerFor user id,
        (∀ later ∈ a.store.ledgerFor user id, ¬ later.completedAt.Overruns r.completedAt) →
        ∃ t, Span.after? r.completedAt seconds = some t ∧ t ≤ a.journey.startedAt) ∧
    (store.activeFor user).length ≤
      max (underWay.countP (·.fits (Store.ofUser user))) e.settings.maxActive ∧
    admitted.map (·.journey.id) = e.idsUpTo (life e eps).engine.issued := by
  intro pair store underWay admitted
  have lives : Lives e snapshot (fun c => c.id = id → c.reentry = policy) admitted
      (life e eps).engine := (living_life boots distinct lasting fresh uniform).lives
  exact ⟨lives.alone (fun _ h => h), lives.first (fun _ h => h),
    fun seconds => lives.rested (fun _ h => h), lives.room user, lives.ids_eq⟩

/-- A user is greeted, the engine is set up anew, and the user asks to be greeted again. -/
def greetsTwice : List Episode :=
  (greets .once).map .move ++ .restart true :: (greets .once).map .move

theorem greetsTwice_lasting : Lasting (.inMemory .empty .epoch) greetsTwice := by
  have held : ∀ prior ∈ greetsTwice.inits,
      (life (.inMemory .empty .epoch) prior).engine.store.backend.isMemory = true ∧
        (life (.inMemory .empty .epoch) prior).engine.store.ledger.Subperm
          (life (.inMemory .empty .epoch) prior).engine.store.durable.records := by
    decide +kernel
  intro prior anew h
  have hp : prior <+: greetsTwice := (List.prefix_append _ _).trans h
  obtain ⟨memory, kept⟩ := held prior ((List.mem_inits _ _).mpr hp)
  exact ⟨Backend.load_of_isMemory memory, kept⟩

/-- Who is greeted once is not greeted again after a restart. -/
theorem greeted_once :
    ((raise (.inMemory .empty .epoch)).admitted greetsTwice).length = 1 ∧
      ((raise (.inMemory .empty .epoch)).admitted greetsTwice).countP
        (·.journey.fits (Store.ofPair "greeting" "ann")) ≤ 1 := by
  have uniform : ∀ prior ∈ greetsTwice.inits,
      ∀ entry ∈ (life (.inMemory .empty .epoch) prior).engine.campaigns,
        entry.2.id = "greeting" → entry.2.reentry = .once := by
    decide +kernel
  have gated := reentry_gated (bootsFrom_inMemory .empty .epoch) (by decide) greetsTwice_lasting
    ⟨by decide +kernel, by decide +kernel⟩ "greeting" "ann"
    fun prior hp key c hc => uniform prior ((List.mem_inits _ _).mpr hp) (key, c) hc
  exact ⟨by decide +kernel, (gated.2.1 rfl).1⟩

/-- A user was greeted in the last second of 2016 and in the leap second after it. -/
def greetedAtYearsEnd : Holdings where
  journeys := []
  ledger :=
    [⟨"ann", "greeting", ⟨7⟩, ⟨1483228799, 900000000, by decide, by decide, by decide⟩, .completed⟩,
     ⟨"ann", "greeting", ⟨8⟩, ⟨1483228799, 1500000000, by decide, by decide, by decide⟩,
      .completed⟩]

/-- Six tenths of a second into 2017. -/
def newYear : Instant := ⟨1483228800, 600000000, by decide, by decide, by decide⟩

/-- A journey of a user that waits for the new year. -/
def waiting (campaign : String) : Journey :=
  { Journey.start ⟨7⟩ { Campaign.greeting .once with id := campaign } "ann" none .epoch with
    status := .paused, resumeAt := some newYear, context := [] }

/-- The journey as a document lists it in short form. -/
def waitingEntry (campaign : String) : List Char :=
  let quoted (text : String) := ['"'] ++ text.toList ++ ['"']
  let epoch := quoted "1970-01-01T00:00:00Z"
  let none := "null".toList
  let fields :=
    [quoted "00000000000000000000000000000007", quoted campaign, ['1'], quoted "ann",
     quoted "paused", quoted "hello", epoch, none, quoted "never", epoch, none,
     quoted "2017-01-01T00:00:00.6Z", "\x7b\x7d".toList, none, epoch, epoch, none, none]
  ['['] ++ [','].intercalate fields ++ [']']

/-- A document that lists two journeys of the user under one id. -/
def mixedUp : String :=
  .ofList ("[[".toList ++ waitingEntry "greeting" ++ [','] ++ waitingEntry "farewell" ++
    "],[]]".toList)

/-- Two journeys without goals and contexts are the same. -/
def alike (j k : Journey) : Bool :=
  (j.id = k.id ∧ j.campaignId = k.campaignId ∧ j.campaignVersion = k.campaignVersion ∧
    j.distinctId = k.distinctId ∧ j.status = k.status ∧ j.node = k.node ∧
    j.enteredAt = k.enteredAt ∧ j.exitPolicy = k.exitPolicy ∧ j.anchorAt = k.anchorAt ∧
    j.convertedAt = k.convertedAt ∧ j.resumeAt = k.resumeAt ∧ j.originEvent = k.originEvent ∧
    j.startedAt = k.startedAt ∧ j.updatedAt = k.updatedAt ∧ j.completedAt = k.completedAt ∧
    j.exitReason = k.exitReason) ∧
  (j.goal.isNone ∧ k.goal.isNone) ∧ j.context.isEmpty ∧ k.context.isEmpty

theorem eq_of_alike {j k : Journey} (h : alike j k = true) : j = k := by
  cases j
  cases k
  simp_all [alike]

theorem mixedUp_read :
    Disk.read (.text mixedUp) = .ok ⟨[waiting "greeting", waiting "farewell"], []⟩ := by
  have chars : mixedUp.toList = "[[".toList ++ waitingEntry "greeting" ++ [','] ++
      waitingEntry "farewell" ++ "],[]]".toList := String.toList_ofList
  have read : (Snapshot.ofText? mixedUp).any (fun held => held.ledger.isEmpty &&
      (held.journeys.length = 2 ∧ (held.journeys.zip [waiting "greeting", waiting "farewell"]).all
        fun (j, k) => alike j k)) = true := by
    simp only [Snapshot.ofText?, Json.readAs?, Json.read?, Json.tokens?, chars]
    decide +kernel
  obtain ⟨⟨journeys, ledger⟩, found, same⟩ := (Option.any_eq_true ..).mp read
  obtain ⟨none, same⟩ := Bool.and_eq_true_iff.mp same
  obtain rfl := List.isEmpty_iff.mp none
  obtain ⟨two, same⟩ := of_decide_eq_true same
  obtain ⟨first, second, rfl⟩ := List.length_eq_two.mp two
  simp only [List.zip_cons_cons, List.zip_nil_right, List.all_cons, List.all_nil, Bool.and_true,
    Bool.and_eq_true] at same
  rw [eq_of_alike same.1, eq_of_alike same.2] at found
  exact Backend.read_text found

/-- When ids are not distinct, a journey may be listed in a document and yet not be seen by the gate.
After a leap second, a cooldown may be over for the last record and not for one before it. -/
theorem reentry_not_gated :
    (¬ ∀ (e : Engine) (snapshot : Snapshot) (eps : List Episode) (id user : String),
      e.BootsFrom snapshot → Lasting e eps → e.FreshIds snapshot (life e eps).engine.issued →
      (∀ prior, prior <+: eps → ∀ key c, (key, c) ∈ (life e prior).engine.campaigns → c.id = id →
        c.reentry = .once) →
      0 < snapshot.tally (Store.ofPair id user) →
      ∀ a ∈ (raise e).admitted eps, a.journey.fits (Store.ofPair id user) = false) ∧
    (¬ ∀ (e : Engine) (snapshot : Snapshot) (eps : List Episode) (id user : String)
      (seconds : Nat), e.BootsFrom snapshot → DistinctIds snapshot.journeys → Lasting e eps →
      e.FreshIds snapshot (life e eps).engine.issued →
      (∀ prior, prior <+: eps → ∀ key c, (key, c) ∈ (life e prior).engine.campaigns → c.id = id →
        c.reentry = .cooldown seconds) →
      ∀ a ∈ (raise e).admitted eps, a.journey.fits (Store.ofPair id user) = true →
        ∀ r ∈ a.store.ledgerFor user id,
          ∃ t, Span.after? r.completedAt seconds = some t ∧ t ≤ a.journey.startedAt) := by
  constructor
  · intro h
    have loads := load_written mixedUp_read
    have boots : (onDocument mixedUp .epoch).BootsFrom _ :=
      bootsFrom_new _ _ _ (congrArg Prod.snd loads)
    have raised := raise_of_load (e := onDocument mixedUp .epoch) loads
    have uniform : ∀ prior ∈ ((greets .once).map Episode.move).inits,
        ∀ entry ∈ (life (.onDocument mixedUp .epoch) prior).engine.campaigns,
          entry.2.id = "greeting" → entry.2.reentry = .once := by
      simp only [life, raised]
      decide +kernel
    have issued : (life (.onDocument mixedUp .epoch) ((greets .once).map .move)).engine.issued = 1 := by
      simp only [life, raised]
      decide +kernel
    have unseen := h (.onDocument mixedUp .epoch) _ ((greets .once).map .move) "greeting" "ann" boots
      (lasting_moves _ _) (issued ▸ ⟨by decide +kernel, by decide +kernel⟩)
      (fun prior hp key c hc => uniform prior ((List.mem_inits _ _).mpr hp) (key, c) hc)
      (by decide +kernel)
    rw [raised] at unseen
    exact absurd unseen (by decide +kernel)
  · intro h
    have uniform : ∀ prior ∈ ((greets (.cooldown 1)).map Episode.move).inits,
        ∀ entry ∈ (life (.inMemory greetedAtYearsEnd newYear) prior).engine.campaigns,
          entry.2.id = "greeting" → entry.2.reentry = .cooldown 1 := by
      decide +kernel
    have rested := h (.inMemory greetedAtYearsEnd newYear) greetedAtYearsEnd
      ((greets (.cooldown 1)).map .move) "greeting" "ann" 1 (bootsFrom_inMemory _ _)
      (by decide +kernel) (lasting_moves _ _) ⟨by decide +kernel, by decide +kernel⟩
      fun prior hp key c hc => uniform prior ((List.mem_inits _ _).mpr hp) (key, c) hc
    have early : ¬ ∀ a ∈ (raise (.inMemory greetedAtYearsEnd newYear)).admitted
          ((greets (.cooldown 1)).map .move), a.journey.fits (Store.ofPair "greeting" "ann") = true →
        ∀ r ∈ a.store.ledgerFor "ann" "greeting",
          (Span.after? r.completedAt 1).any (· ≤ a.journey.startedAt) = true := by
      decide +kernel
    apply early
    intro a ha hp r hr
    obtain ⟨t, ht, hle⟩ := rested a ha hp r hr
    simpa [ht] using hle

end Session

end Engagement
