import Engagement.Proofs.Engine.Attention

/-! # The limit on steps

The engine counts the nodes that a journey goes through without a pause. The count is begun anew only
while the journey has no step, so whatever would wake the journey in the meantime leaves it alone; and
a journey that has gone through as many nodes as the settings allow does not go on.
-/

namespace Engagement

/-- Why a journey ends that goes on and on. -/
def ExitReason.endless (limit : Nat) : ExitReason :=
  .errored s!"exceeded {limit} steps without suspending"

namespace Engine

variable {e e' e'' : Engine} {j k : Journey} {id : JourneyId} {m : Message} {l : List Admission}
  {n : Nat}

/-- How many nodes a journey has gone through since it was last driven from outside. -/
def progress (e : Engine) (id : JourneyId) : Nat := (e.steps.get? id).getD 0

theorem progress_of_steps (h : e'.steps = e.steps) : e'.progress id = e.progress id := by
  unfold progress
  rw [h]

theorem progress_of_erase {other : JourneyId} (h : e'.steps = e.steps.erase other) :
    e'.progress id = if id = other then 0 else e.progress id := by
  unfold progress
  rw [h]
  split
  · rename_i hid
    simp [hid]
  · rename_i hid
    rw [Table.get?_erase_of_ne _ hid]

theorem progress_of_insert {other : JourneyId} (h : e'.steps = e.steps.insert other n) :
    e'.progress id = if id = other then n else e.progress id := by
  unfold progress
  rw [h]
  split
  · rename_i hid
    simp [hid]
  · rename_i hid
    rw [Table.get?_insert_of_ne _ hid]

theorem progress_finish (e : Engine) (alive : j.isTerminal = false) (reason : ExitReason) :
    (e.finish j reason).progress id = if id = j.id then 0 else e.progress id :=
  progress_of_erase (by rw [finish_eq e alive])

theorem progress_finish_le (e : Engine) (alive : j.isTerminal = false) (reason : ExitReason) :
    (e.finish j reason).progress id ≤ e.progress id := by
  rw [progress_finish e alive]
  split
  · exact Nat.zero_le _
  · exact Nat.le_refl _

/-- A journey that has gone as far as the settings allow does not go on. -/
theorem advance_of_limit (limit : e.settings.maxSteps ≤ e.progress j.id) (next : String)
    (kind : Analytics.Kind) : e.advance j next kind =
      { e with steps := e.steps.insert j.id (e.progress j.id + 1) }.finish j
        (.endless e.settings.maxSteps) :=
  if_pos (Nat.lt_succ_of_le limit)

/-! ## The limit is kept -/

/-- No count is beyond the limit. -/
def Limited (e : Engine) : Prop := ∀ id, e.progress id ≤ e.settings.maxSteps

theorem Calm.progress_le (h : Calm e e') : e'.progress id ≤ e.progress id := by
  cases h with
  | forgetSteps =>
    rw [progress_of_erase (e := e) rfl]
    split <;> simp
  | setTimer => exact Nat.le_of_eq (progress_of_steps (setTimer_steps _ _))
  | park => exact Nat.le_of_eq (progress_of_steps (setTimer_steps _ _))
  | @finish _ _ store _ _ alive => exact progress_finish_le { e with store := store } alive _
  | _ => exact Nat.le_refl _

theorem Calms.progress_le (h : Calms e e') : e'.progress id ≤ e.progress id := by
  induction h with
  | refl => exact Nat.le_refl _
  | tail _ h ih => exact Nat.le_trans h.progress_le ih

theorem Limited.of_le (limited : e.Limited) (settings : e'.settings = e.settings)
    (le : ∀ id, e'.progress id ≤ e.progress id) : e'.Limited :=
  fun id => settings ▸ Nat.le_trans (le id) (limited id)

theorem Limited.calms (limited : e.Limited) (h : Calms e e') : e'.Limited :=
  limited.of_le h.changes.settings_eq fun _ => h.progress_le

theorem Limited.advance (limited : e.Limited) (alive : j.isTerminal = false) (next : String)
    (kind : Analytics.Kind) : (e.advance j next kind).Limited := by
  -- The count of a journey that ends is forgotten, whatever it was.
  have ends : ∀ (e₁ : Engine) (k : Journey) (reason : ExitReason), k.id = j.id →
      k.isTerminal = false → e₁.settings = e.settings →
      e₁.steps = e.steps.insert j.id (e.progress j.id + 1) → (e₁.finish k reason).Limited := by
    intro e₁ k reason hid alive settings steps
    refine limited.of_le (by rw [finish_eq _ alive]; exact settings) fun id => ?_
    rw [progress_finish _ alive, progress_of_insert steps, hid]
    split
    · exact Nat.zero_le _
    · exact Nat.le_refl _
  by_cases limit : e.settings.maxSteps ≤ e.progress j.id
  · rw [advance_of_limit limit]
    exact ends _ j _ rfl alive rfl rfl
  · rcases e.advance_cases alive next kind with
      ⟨k, store, reason, continues, alive', -, -, he⟩ | ⟨store, -, he⟩
    · rw [he]
      exact ends _ k reason continues.id alive' rfl rfl
    · rw [he]
      have moved : (e.moved store j next kind).Limited := by
        intro id
        rw [progress_of_insert (e := e) rfl]
        split
        · exact Nat.lt_of_not_le limit
        · exact limited id
      exact moved.calms (calms_drive _ _ _)

theorem Deed.limited (h : Deed m e l e') (limited : e.Limited) : e'.Limited := by
  cases h with
  | calm h => exact limited.calms (.single h)
  | advance _ alive => exact limited.advance alive _ _
  | conclude _ alive =>
    exact limited.of_le (by rw [finish_eq _ alive]) fun _ => progress_finish_le e alive _
  | enter known =>
    rcases enter_cases known with ⟨-, reason, he⟩ | ⟨-, start, store, fault, -, he⟩ |
      ⟨-, store, -, -, he⟩
    · rw [he]
      exact limited
    · have alive := start.store_cases.1
      rw [he, giveUp]
      exact limited.of_le (by rw [finish_eq _ alive]) fun _ =>
        progress_finish_le { e with issued := e.issued + 1, store := store } alive _
    · rw [he]
      refine Limited.calms ?_ (calms_drive _ _ _)
      rw [entered_eq]
      exact limited
  | _ => exact limited

theorem Deeds.limited (h : Deeds m e l e') (limited : e.Limited) : e'.Limited := by
  induction h with
  | refl => exact limited
  | tail _ h ih => exact h.limited ih

theorem takeIn_steps (e : Engine) (m : Message) : (e.takeIn m).steps = e.steps := by
  obtain ⟨campaigns, loaded, flights, tasks, -, he⟩ := e.takeIn_eq m
  rw [he]

theorem Hears.limited (hears : e.Hears m) (limited : e.Limited) : (e.handle m).Limited := by
  refine hears.deeds.limited ?_
  exact limited.of_le (takeIn_settings e m) fun id =>
    Nat.le_of_eq (progress_of_steps (takeIn_steps e m))

/-! ## A journey with a step -/

/-- A journey that has left comes in again only if one of its id is admitted. -/
theorem Traces.gone (h : Traces e l e') (others : ∀ a ∈ l, a.journey.id ≠ id)
    (gone : e.Gone id) : e'.Gone id := by
  induction h with
  | refl => exact gone
  | @quiet e₁ e₂ _ _ h ih =>
    intro k hk hid
    obtain ⟨i, hi, continues⟩ := h.continues hk
    exact ih others i hi (continues.id.symm.trans hid)
  | @start e₁ e₂ _ j _ h ih =>
    have ih := ih fun a ha => others a (List.mem_append_left _ ha)
    have new : j.id ≠ id := others ⟨j, e₁.store⟩ (by simp)
    obtain ⟨-, puts | ⟨reason, completes⟩⟩ := h.store_cases
    · intro k hk
      rcases mem_of_mem_upsert (puts.active ▸ hk) with rfl | hk
      · exact new
      · exact ih k hk
    · intro k hk
      exact ih k (mem_without.mp (completes.active ▸ hk)).1

theorem Calms.gone (h : Calms e e') (gone : e.Gone id) : e'.Gone id :=
  (Traces.refl.quiets h.quiets).gone (by simp) gone

/-- The step of a journey stays as it is and its count too, unless the journey leaves. -/
def Steady (id : JourneyId) (e e' : Engine) : Prop :=
  ∀ f ∈ e.flights, f.journey.id = id →
    e'.Gone id ∨ f ∈ e'.flights ∧ e'.progress id = e.progress id

namespace Steady

theorem refl (e : Engine) : Steady id e e := fun _ hf _ => .inr ⟨hf, rfl⟩

theorem of_eq (flights : e'.flights = e.flights) (steps : e'.steps = e.steps) : Steady id e e' :=
  fun _ hf _ => .inr ⟨flights ▸ hf, progress_of_steps steps⟩

theorem trans (h : Steady id e e') (h' : Steady id e' e'') (gone : e'.Gone id → e''.Gone id) :
    Steady id e e'' := by
  intro f hf hid
  rcases h f hf hid with left | ⟨hf, same⟩
  · exact .inl (gone left)
  · exact (h' f hf hid).imp_right fun ⟨hf, same'⟩ => ⟨hf, same'.trans same⟩

/-- A journey that ends leaves the steps of others alone. -/
theorem finish {d : Engine} (alive : k.isTerminal = false) (flights : d.flights = e.flights)
    (steps : id ≠ k.id → d.progress id = e.progress id) (reason : ExitReason) :
    Steady id e (d.finish k reason) := by
  rintro f hf rfl
  by_cases hid : f.journey.id = k.id
  · left
    rw [hid]
    exact gone_finish d alive reason
  · refine .inr ⟨?_, ?_⟩
    · rw [finish_eq d alive, flights]
      exact List.mem_filter.mpr ⟨hf, by simpa using hid⟩
    · rw [progress_finish d alive, if_neg hid, steps hid]

end Steady

theorem Calm.steady (h : Calm e e') : Steady id e e' := by
  cases h with
  | @forgetSteps other free =>
    rintro f hf rfl
    have hne : f.journey.id ≠ other := isFlying_eq_false.mp free f hf
    exact .inr ⟨hf, (progress_of_erase (e := e) rfl).trans (if_neg hne)⟩
  | setTimer => exact .of_eq (setTimer_flights _ _) (setTimer_steps _ _)
  | launch => exact fun f hf _ => .inr ⟨List.mem_append_left _ hf, rfl⟩
  | park => exact .of_eq (setTimer_flights _ _) (setTimer_steps _ _)
  | @finish _ _ store _ _ alive =>
    exact .finish (d := { e with store := store }) alive rfl (fun _ => rfl) _
  | _ => exact .of_eq rfl rfl

theorem Calms.steady (h : Calms e e') : Steady id e e' := by
  induction h with
  | refl => exact .refl e
  | tail _ h ih => exact ih.trans h.steady (Calms.gone (.single h))

/-- What is done besides on a message leaves the step of a journey alone. -/
theorem Deed.steady (h : Deed m e l e') : Steady id e e' := by
  cases h with
  | calm h => exact h.steady
  | @advance j next kind under_way alive free =>
    rintro f hf rfl
    have hne : f.journey.id ≠ j.id := isFlying_eq_false.mp free f hf
    rcases e.advance_cases alive next kind with
      ⟨k, store, reason, continues, alive', -, -, he⟩ | ⟨store, -, he⟩
    · rw [he]
      let counted : Engine := { e with
        steps := e.steps.insert j.id (e.progress j.id + 1), store := store }
      have same : counted.progress f.journey.id = e.progress f.journey.id :=
        (progress_of_insert rfl).trans (if_neg hne)
      exact Steady.finish (e := e) (d := counted) alive' rfl (fun _ => same) reason f hf rfl
    · rw [he]
      have moved : (e.moved store j next kind).progress f.journey.id = e.progress f.journey.id :=
        (progress_of_insert (e := e) rfl).trans (if_neg hne)
      refine ((calms_drive (e.moved store j next kind) _ _).steady f hf rfl).imp_right ?_
      exact fun ⟨hf, same⟩ => ⟨hf, same.trans moved⟩
  | conclude _ alive => exact .finish alive rfl (fun _ => rfl) _
  | enter known =>
    rcases enter_cases known with ⟨-, reason, he⟩ | ⟨-, start, store, fault, -, he⟩ |
      ⟨-, store, -, -, he⟩
    · rw [he]
      exact .of_eq rfl rfl
    · rw [he]
      exact .finish (d := { e with issued := e.issued + 1, store := store }) start.store_cases.1 rfl
        (fun _ => rfl) _
    · rw [he]
      have entered := entered_eq e store
      refine Steady.trans (.of_eq ?_ ?_) (calms_drive _ _ _).steady (calms_drive _ _ _).gone
      · rw [entered]
      · rw [entered]
  | _ => exact .of_eq rfl rfl

theorem Deeds.steady (h : Deeds m e l e') (others : ∀ a ∈ l, a.journey.id ≠ id) :
    Steady id e e' := by
  induction h with
  | refl => exact .refl e
  | tail _ h ih =>
    refine (ih fun a ha => others a (List.mem_append_left _ ha)).trans h.steady fun gone => ?_
    exact h.traces.gone (fun a ha => others a (List.mem_append_right _ ha)) gone

/-! ## A step that lands -/

/-- The journey has left, or a step of it is to begin and it has gone through so many nodes. -/
def GoesOn (e : Engine) (id : JourneyId) (n : Nat) : Prop :=
  e.Gone id ∨ ∃ f ∈ e.flights, f.journey.id = id ∧ f.phase = .ready ∧ e.progress id = n

theorem GoesOn.calms (goes : e.GoesOn id n) (h : Calms e e') : e'.GoesOn id n := by
  rcases goes with gone | ⟨f, hf, hid, ready, rfl⟩
  · exact .inl (h.gone gone)
  · exact (h.steady f hf hid).imp_right fun ⟨hf, same⟩ => ⟨f, hf, hid, ready, same⟩

/-- A journey that is driven on keeps its count. -/
theorem goesOn_drive (sound : e.Sound) (resolved : e.Resolved id) (free : e.isFlying id = false) :
    (e.drive id .advance).GoesOn id (e.progress id) := by
  unfold drive
  rw [if_neg (by simp [free])]
  split
  · rename_i j hj
    obtain ⟨hm, rfl⟩ := mem_of_get? hj
    have alive := sound.alive j hm
    rw [if_neg (by simp [alive])]
    unfold driveAt
    split
    · rename_i hc
      rw [if_pos (by simpa [resolves, hc] using resolved j hm rfl)]
      exact .inl (gone_finish e alive _)
    · split
      · exact .inl (gone_finish e alive _)
      · exact .inr ⟨_, List.mem_append_right _ (List.mem_singleton_self _), rfl, rfl, rfl⟩
  · rename_i hj
    exact .inl (get?_eq_none.mp hj)

theorem goesOn_advance (sound : e.Sound) (under_way : j ∈ e.store.active)
    (free : e.isFlying j.id = false) (resolved : e.Resolved j.id) (next : String)
    {kind : Analytics.Kind} (arrival : kind.isArrival = true) (on_way : kind ≠ .entered) :
    (e.advance j next kind).GoesOn j.id (e.progress j.id + 1) := by
  have alive := sound.alive j under_way
  rcases e.advance_cases alive next kind with
    ⟨k, store, reason, continues, alive', -, -, he⟩ | ⟨store, saved, he⟩
  · left
    rw [he, ← continues.id]
    exact gone_finish _ alive' reason
  · have first := quiets_moved under_way alive free arrival on_way saved
    have count : (e.moved store j next kind).progress j.id = e.progress j.id + 1 :=
      (progress_of_insert (e := e) rfl).trans (if_pos rfl)
    rw [he, ← count]
    exact goesOn_drive (sound.changes first.changes) (resolved.quiets first) free

/-- A result that does not make the journey wait ends it or takes it one node further. -/
theorem goesOn_apply (sound : e.Sound) (under_way : j ∈ e.store.active)
    (free : e.isFlying j.id = false) (resolved : e.Resolved j.id) {result : StepResult}
    (goes_on : result.isSuspend = false) :
    (e.apply j result).GoesOn j.id (e.progress j.id + 1) := by
  have alive := sound.alive j under_way
  match result with
  | .proceed next => exact goesOn_advance sound under_way free resolved next rfl (by decide)
  | .skip (some next) => exact goesOn_advance sound under_way free resolved next rfl (by decide)
  | .skip none => exact .inl (gone_finish e alive _)
  | .complete reason => exact .inl (gone_finish e alive _)
  | .suspend deadline => simp [StepResult.isSuspend] at goes_on

/-- A journey that has gone as far as the settings allow ends instead of going on. -/
theorem apply_of_limit (alive : j.isTerminal = false) {result : StepResult} {next : String}
    (leads : result.next? = some next) (limit : e.settings.maxSteps ≤ e.progress j.id) :
    (e.apply j result).Gone j.id ∧
      .ofJourney (j.ended (.endless e.settings.maxSteps) e.now) ∈ (e.apply j result).store.ledger := by
  have ends : ∀ kind, (e.advance j next kind).Gone j.id ∧
      .ofJourney (j.ended (.endless e.settings.maxSteps) e.now) ∈
        (e.advance j next kind).store.ledger := by
    intro kind
    rw [advance_of_limit limit]
    let counted : Engine := { e with steps := e.steps.insert j.id (e.progress j.id + 1) }
    have ended : e.store.Completes (j.ended (.endless e.settings.maxSteps) e.now)
        (counted.finish j (.endless e.settings.maxSteps)).store :=
      completes_finish (e := counted) alive _ (.inl rfl)
    refine ⟨gone_finish counted alive _, ?_⟩
    rw [ended.ledger]
    exact List.mem_append_right _ (List.mem_singleton_self _)
  cases result with
  | proceed n =>
    obtain rfl : n = next := Option.some.inj leads
    exact ends _
  | skip n =>
    obtain rfl : n = some next := leads
    exact ends _
  | _ => cases leads

theorem goesOn_onStep {f : Flight} (sound : e.Sound) (orderly : e.Orderly) (minded : e.Minded)
    (hf : f ∈ e.flights) {task : Nat}
    (taken : (e.flight? f.journey.id).any (·.task = task) = true) {result : StepResult}
    (goes_on : result.isSuspend = false) :
    (e.onStep task f.journey.id f.node.id result).GoesOn f.journey.id
      (e.progress f.journey.id + 1) := by
  obtain ⟨j, hj, of_j, he⟩ := onStep_of_flight sound orderly hf taken result
  let landed : Engine := { e with flights := e.flights.filter (·.journey.id ≠ j.id) }
  have resolved : landed.Resolved j.id := minded j.id (isFlying_iff.mpr ⟨f, hf, of_j.id⟩)
  have applied : (landed.apply j result).GoesOn j.id (e.progress j.id + 1) :=
    goesOn_apply (e := landed) ⟨sound.distinct, sound.alive⟩ hj
      (by simp [landed, isFlying_eq_false]) resolved goes_on
  rw [he, of_j.id]
  split
  · exact applied.calms (calms_retryPresentations _ _)
  · exact applied

/-! ## Handling -/

/-- Whether the message makes a journey wait: it reports so of the journey's present step. -/
def suspends (e : Engine) (id : JourneyId) : Message → Bool
  | .report (.step task journey _ (.suspend _)) =>
    journey = id && (e.flight? id).any (·.task = task)
  | _ => false

/-- Only the report of its own step takes a journey to another node, and then its count is raised. -/
theorem Hears.paces {f : Flight} (hears : e.Hears m) (hf : f ∈ e.flights)
    (others : ∀ a ∈ e.admissions m, a.journey.id ≠ f.journey.id)
    (goes_on : e.suspends f.journey.id m = false) :
    (e.handle m).Gone f.journey.id ∨
    (f ∈ (e.handle m).flights ∧
      (e.handle m).progress f.journey.id = e.progress f.journey.id) ∨
    (∃ node result, m = .report (.step f.task f.journey.id node result)) ∧
      (e.handle m).GoesOn f.journey.id (e.progress f.journey.id + 1) := by
  by_cases still : f ∈ (e.takeIn m).flights
  · have count : (e.takeIn m).progress f.journey.id = e.progress f.journey.id :=
      progress_of_steps (takeIn_steps e m)
    rcases hears.deeds.steady others f still rfl with gone | ⟨hf', same⟩
    · exact .inl gone
    · exact .inr (.inl ⟨hf', same.trans count⟩)
  · obtain ⟨task, node, result, rfl, taken⟩ := landed_of_not_mem hf still
    have htask : f.task = task := by simpa [hears.orderly.flight?_eq hf] using taken
    obtain ⟨-, rfl⟩ := hears.named task _ node result rfl f hf htask
    refine .inr (.inr ⟨⟨f.node.id, result, by rw [htask]⟩, ?_⟩)
    refine goesOn_onStep hears.sound hears.orderly hears.minded hf taken ?_
    cases result with
    | suspend deadline => simp [suspends, taken] at goes_on
    | _ => rfl

/-- A journey that has gone as far as the settings allow ends when its step asks to go on. -/
theorem Hears.ends_at_limit {task : Nat} {node next : String} {result : StepResult}
    (hears : e.Hears (.report (.step task id node result)))
    (taken : (e.flight? id).any (·.task = task) = true) (leads : result.next? = some next)
    (limit : e.settings.maxSteps ≤ e.progress id) :
    let e' := e.handle (.report (.step task id node result))
    e'.Gone id ∧ ∃ j ∈ e.store.active, j.id = id ∧
      .ofJourney (j.ended (.endless e.settings.maxSteps) e.now) ∈ e'.store.ledger := by
  obtain ⟨f, hf, ht⟩ := (Option.any_eq_true _ _).mp taken
  have hm : f ∈ e.flights := List.mem_of_find?_eq_some hf
  obtain ⟨rfl, rfl⟩ := hears.named task id node result rfl f hm (by simpa using ht)
  obtain ⟨j, hj, of_j, he⟩ := onStep_of_flight hears.sound hears.orderly hm taken result
  have alive := hears.sound.alive j hj
  let landed : Engine := { e with flights := e.flights.filter (·.journey.id ≠ j.id) }
  have sound : (landed.apply j result).Sound :=
    Sound.changes (e := landed) ⟨hears.sound.distinct, hears.sound.alive⟩
      (quiets_apply (e := landed) hj alive (by simp [landed, isFlying_eq_false]) result).changes
  rw [of_j.id] at limit
  obtain ⟨gone, recorded⟩ := apply_of_limit (e := landed) alive leads limit
  have on : Calms (landed.apply j result)
      (e.handle (.report (.step task f.journey.id f.node.id result))) := by
    unfold handle onReport
    dsimp only
    rw [he]
    split
    · exact calms_retryPresentations _ _
    · exact .refl
  refine ⟨?_, j, hj, of_j.id.symm, (on.changes.evolves sound).ledger_grows.subset recorded⟩
  rw [← of_j.id] at gone
  exact on.gone gone

end Engine

end Engagement
