import Engagement.Proofs.Engine.Deeds

/-! # Journeys without a step

A journey in the mirror that has no step is left where it lies, or is made to wait, with a timer for
its deadline. So a journey that is due without a step, or that will miss its deadline, was so before
anything was done.
-/

namespace Engagement

/-- The same stay at a node, during which at most a conversion has been recorded. -/
structure Journey.Remains (j k : Journey) : Prop extends Journey.Continues j k where
  status : k.status = j.status
  node : k.node = j.node
  enteredAt : k.enteredAt = j.enteredAt
  resumeAt : k.resumeAt = j.resumeAt

namespace Journey.Remains

variable {j k l : Journey}

theorem refl (j : Journey) : j.Remains j := ⟨.refl j, rfl, rfl, rfl, rfl⟩

theorem trans (h : j.Remains k) (h' : k.Remains l) : j.Remains l :=
  ⟨h.toContinues.trans h'.toContinues, h'.status.trans h.status, h'.node.trans h.node,
    h'.enteredAt.trans h.enteredAt, h'.resumeAt.trans h.resumeAt⟩

end Journey.Remains

namespace Engine

variable {timely : Prop} {e e' e'' : Engine} {i j k : Journey} {id : JourneyId} {m : Message}
  {l : List Admission}

/-- A timer is set that will wake the journey where it stands. -/
def Timed (e : Engine) (j : Journey) : Prop := ∃ t ∈ e.timers, t.journey = j.id ∧ t.node = j.node

/-- The journey waits. If deadlines matter, a timer is set for its own. -/
structure Tended (timely : Prop) (e : Engine) (k : Journey) : Prop where
  paused : k.status = .paused
  timed : timely → k.resumeAt.isSome → e.Timed k

/-- The journey lay without a step where it lies now. If deadlines matter, a timer that was set for
it still is. -/
def Lies (timely : Prop) (e e' : Engine) (k : Journey) : Prop :=
  ∃ j ∈ e.store.active, j.Remains k ∧ e.isFlying j.id = false ∧ (timely → e.Timed j → e'.Timed k)

/-- Every journey without a step lies where it lay, or is tended. -/
def Attends (timely : Prop) (e e' : Engine) : Prop :=
  ∀ k ∈ e'.store.active, e'.isFlying k.id = false → Lies timely e e' k ∨ e'.Tended timely k

theorem Tended.remains (tended : e.Tended timely j) (remains : j.Remains k)
    (timed : timely → e.Timed j → e'.Timed k) : e'.Tended timely k where
  paused := remains.status.trans tended.paused
  timed ht hd := timed ht (tended.timed ht (remains.resumeAt ▸ hd))

namespace Attends

theorem refl (e : Engine) : Attends timely e e :=
  fun k hk free => .inl ⟨k, hk, .refl k, free, fun _ h => h⟩

theorem trans (h : Attends timely e e') (h' : Attends timely e' e'') : Attends timely e e'' := by
  intro k hk free
  rcases h' k hk free with ⟨j, hj, remains, free', timed⟩ | tended
  · rcases h j hj free' with ⟨i, hi, remains', free'', timed'⟩ | tended
    · exact .inl ⟨i, hi, remains'.trans remains, free'', fun ht hi => timed ht (timed' ht hi)⟩
    · exact .inr (tended.remains remains timed)
  · exact .inr tended

theorem of_frame (active : e'.store.active = e.store.active) (flights : e'.flights = e.flights)
    (timers : timely → ∀ j ∈ e.store.active, e.Timed j → e'.Timed j) : Attends timely e e' := by
  intro k hk free
  rw [active] at hk
  rw [isFlying_eq_false, flights, ← isFlying_eq_false] at free
  exact .inl ⟨k, hk, .refl k, free, fun ht => timers ht k hk⟩

end Attends

/-! ## Timers -/

theorem Timed.cancelTimer (timed : e.Timed j) (hne : j.id ≠ id) : (e.cancelTimer id).Timed j := by
  obtain ⟨t, ht, hid, hn⟩ := timed
  exact ⟨t, List.mem_filter.mpr ⟨ht, by simp [hid, hne]⟩, hid, hn⟩

theorem timed_setTimer_self (front : e.foreground = true) (deadline : k.resumeAt.isSome) :
    (e.setTimer k).Timed k := by
  obtain ⟨t, ht⟩ := Option.isSome_iff_exists.mp deadline
  unfold setTimer
  rw [ht]
  dsimp only
  rw [if_pos front]
  exact ⟨_, List.mem_append_right _ (List.mem_singleton_self _), rfl, rfl⟩

/-- Setting a timer takes none away but by putting one in its place. -/
theorem Timed.setTimer (timed : e.Timed j) (here : j.id = k.id → j.node = k.node) :
    (e.setTimer k).Timed j := by
  unfold Engine.setTimer
  split
  · split
    · by_cases hid : j.id = k.id
      · exact ⟨_, List.mem_append_right _ (List.mem_singleton_self _), hid.symm, (here hid).symm⟩
      · obtain ⟨t, ht, h⟩ := timed.cancelTimer hid
        exact ⟨t, List.mem_append_left _ ht, h⟩
    · exact timed
  · exact timed

/-! ## Calm changes -/

/-- A journey that ends leaves the others where they lie. -/
theorem attends_finish (e e' : Engine) (alive : k.isTerminal = false)
    (flights : e'.flights = e.flights) (timers : e'.timers = e.timers)
    (store_eq : e'.store = e.store ∨ ∃ fault, e.store.save k = (e'.store, .error fault))
    (reason : ExitReason) : Attends timely e (e'.finish k reason) := by
  intro i hi free
  have hc := completes_finish alive reason store_eq
  obtain ⟨hi, hne⟩ : i ∈ e.store.active ∧ i.id ≠ k.id := mem_without.mp (hc.active ▸ hi)
  rw [finish_eq _ alive, flights] at free
  refine .inl ⟨i, hi, .refl i, ?_, fun _ timed => ?_⟩
  · rw [isFlying_eq_false] at free ⊢
    intro f hf hid
    exact free f (List.mem_filter.mpr ⟨hf, by simpa [hid] using hne⟩) hid
  · rw [finish_eq _ alive, timers]
    exact timed.cancelTimer hne

theorem Calm.attends (h : Calm e e') (sound : e.Sound) (front : timely → e.foreground = true) :
    Attends timely e e' := by
  cases h with
  | releaseTimer id =>
    refine .of_frame rfl rfl fun _ j _ ⟨t, ht, hid, hn⟩ => ?_
    refine ⟨_, List.mem_map_of_mem ht, ?_⟩
    split <;> exact ⟨hid, hn⟩
  | @setTimer j k under_way same here =>
    refine .of_frame (by rw [setTimer_store]) (setTimer_flights e k) fun _ i hi timed =>
      timed.setTimer fun hid => ?_
    rw [sound.distinct.eq_of_id hi under_way (hid.trans same), here]
  | @launch j node under_way alive free here =>
    intro k hk free'
    rw [isFlying_eq_false] at free'
    have hne : k.id ≠ j.id :=
      Ne.symm (free' _ (List.mem_append_right _ (List.mem_singleton_self _)))
    have still : e.isFlying k.id = false :=
      isFlying_eq_false.mpr fun f hf => free' f (List.mem_append_left _ hf)
    exact .inl ⟨k, hk, .refl k, still, fun _ timed => timed.cancelTimer hne⟩
  | @park j deadline store under_way alive saved =>
    intro k hk free
    rw [setTimer_isFlying] at free
    rw [setTimer_store] at hk
    rcases (mem_upsert_iff sound.distinct).mp ((Store.puts_of_save saved).active ▸ hk) with
      rfl | ⟨hk, hne⟩
    · exact .inr ⟨rfl, fun ht hd => timed_setTimer_self (front ht) hd⟩
    · refine .inl ⟨k, hk, .refl k, free, fun _ timed => ?_⟩
      exact Timed.setTimer (e := { e with store := store }.report _ _ _ _) timed fun hid =>
        (hne hid).elim
  | @finish _ _ store _ under_way alive continues store_eq =>
    exact attends_finish e { e with store := store } alive rfl rfl store_eq _
  | _ => exact .of_frame rfl rfl fun _ _ _ timed => timed

theorem Calms.attends (h : Calms e e') (sound : e.Sound) (front : timely → e.foreground = true) :
    Attends timely e e' := by
  induction h with
  | refl => exact .refl e
  | tail hs h ih =>
    have here := Calms.foreground_eq hs
    exact ih.trans (h.attends (sound.changes (Calms.changes hs)) fun ht => here.trans (front ht))

/-! ## Journeys that are looked after -/

/-- The journey is tended unless it has a step or is not in the mirror. -/
def Attended (timely : Prop) (e : Engine) (id : JourneyId) : Prop :=
  ∀ k ∈ e.store.active, k.id = id → e.isFlying id = false → e.Tended timely k

theorem attended_of_gone (gone : e.Gone id) : e.Attended timely id :=
  fun k hk hid => (gone k hk hid).elim

theorem attended_of_flying (flying : e.isFlying id = true) : e.Attended timely id :=
  fun _ _ _ free => by simp [flying] at free

theorem Attended.attends (attended : e.Attended timely id) (h : Attends timely e e') :
    e'.Attended timely id := by
  rintro k hk rfl free
  rcases h k hk free with ⟨j, hj, remains, free', timed⟩ | tended
  · exact (attended j hj remains.id.symm (remains.id ▸ free')).remains remains timed
  · exact tended

theorem attended_drive (sound : e.Sound) (resolved : e.Resolved id) (reason : ResumeReason) :
    (e.drive id reason).Attended timely id :=
  (roused_drive sound resolved (Nat.le_refl _) reason).elim attended_of_gone
    fun roused => attended_of_flying roused.isFlying

/-- A journey that is put and driven at once is looked after; the others lie where they lay. -/
theorem attends_put_drive (sound : e'.Sound) (resolved : e'.Resolved j.id)
    (front : timely → e'.foreground = true) (active : e'.store.active = upsert k e.store.active)
    (same : k.id = j.id) (flights : e'.flights = e.flights) (timers : e'.timers = e.timers)
    (reason : ResumeReason) : Attends timely e (e'.drive j.id reason) := by
  intro i hi free
  by_cases hid : i.id = j.id
  · exact .inr (attended_drive sound resolved reason i hi hid (hid ▸ free))
  · refine ((calms_drive e' j.id reason).attends sound front i hi free).imp_left ?_
    rintro ⟨i', hi', remains, free', timed⟩
    have hne : i'.id ≠ k.id := fun he => hid (remains.id.trans (he.trans same))
    rw [isFlying_eq_false, flights, ← isFlying_eq_false] at free'
    refine ⟨i', ?_, remains, free', fun ht h => timed ht ?_⟩
    · exact (mem_of_mem_upsert (active ▸ hi')).resolve_left fun he => hne (congrArg _ he)
    · unfold Timed
      rwa [timers]

/-! ## Deeds -/

theorem Deed.foreground_eq (h : Deed m e l e') (untold : m.signal? = none) :
    e'.foreground = e.foreground := by
  cases h with
  | calm h => exact h.foreground_eq
  | @advance j next kind under_way alive =>
    rcases e.advance_cases alive next kind with
      ⟨k, store, reason, -, alive', -, -, he⟩ | ⟨store, -, he⟩
    · rw [he, finish_eq _ alive']
    · rw [he]
      exact (calms_drive _ _ _).foreground_eq
  | conclude _ alive => rw [finish_eq _ alive]
  | enter known =>
    rcases enter_cases known with ⟨-, reason, he⟩ | ⟨-, start, store, fault, -, he⟩ |
      ⟨-, store, -, -, he⟩
    · rw [he]
      rfl
    · rw [he, giveUp, finish_eq _ start.store_cases.1]
    · rw [he]
      refine (calms_drive _ _ _).foreground_eq.trans ?_
      rw [entered_eq]
  | signal told => simp [untold] at told
  | _ => rfl

theorem Deed.attends (h : Deed m e l e') (sound : e.Sound) (keyed : e.Keyed)
    (front : timely → e.foreground = true ∧ m.signal? = none) : Attends timely e e' := by
  have changes := h.changes
  cases h with
  | calm h => exact h.attends sound fun ht => (front ht).1
  | @advance j next kind under_way alive free resolved arrival on_way =>
    rcases e.advance_cases alive next kind with ⟨k, store, reason, -, alive', store_eq, -, he⟩ |
      ⟨store, saved, he⟩
    · rw [he]
      exact attends_finish e { e with steps := _, store := store } alive' rfl rfl store_eq reason
    · have first := quiets_moved under_way alive free arrival on_way saved
      rw [he]
      exact attends_put_drive (sound.changes first.changes) (resolved.quiets first)
        (fun ht => (front ht).1) (Store.puts_of_save saved).active rfl rfl rfl _
  | conclude under_way alive => exact attends_finish e e alive rfl rfl (.inl rfl) _
  | enter known =>
    rcases enter_cases known with ⟨-, reason, he⟩ | ⟨-, start, store, fault, refused, he⟩ |
      ⟨-, store, saved, start, he⟩
    · rw [he]
      exact .of_frame rfl rfl fun _ _ _ timed => timed
    · rw [he]
      exact attends_finish e { e with issued := _, store := store } start.store_cases.1 rfl rfl
        (.inr ⟨fault, refused⟩) _
    · have entered := entered_eq e store
      rw [he]
      refine attends_put_drive (k := e.newcomer _ _ _) (sound.change (.start start))
        (start.resolved sound keyed) (fun ht => ?_) ?_ rfl ?_ ?_ _
      · rw [entered]
        exact (front ht).1
      · rw [entered]
        exact (Store.puts_of_save saved).active
      · rw [entered]
      · rw [entered]
  | @convert j t store under_way alive found saved =>
    intro k hk free
    rcases (mem_upsert_iff sound.distinct).mp ((Store.puts_of_save saved).active ▸ hk) with
      rfl | ⟨hk, -⟩
    · refine .inl ⟨j, under_way, ?_, free, fun _ timed => timed⟩
      exact ⟨⟨rfl, rfl, rfl, rfl, rfl, rfl, rfl, rfl, rfl, rfl⟩, rfl, rfl, rfl, rfl⟩
    · exact .inl ⟨k, hk, .refl k, free, fun _ timed => timed⟩
  | cancelTimers told =>
    refine .of_frame rfl rfl fun ht => ?_
    simp [(front ht).2] at told
  | _ => exact .of_frame rfl rfl fun _ _ _ timed => timed

theorem Deeds.foreground_eq (h : Deeds m e l e') (untold : m.signal? = none) :
    e'.foreground = e.foreground := by
  induction h with
  | refl => rfl
  | tail _ h ih => exact (h.foreground_eq untold).trans ih

theorem Deeds.attends (h : Deeds m e l e') (sound : e.Sound) (keyed : e.Keyed)
    (front : timely → e.foreground = true ∧ m.signal? = none) : Attends timely e e' := by
  induction h with
  | refl => exact .refl e
  | tail hs h ih =>
    refine ih.trans (h.attends (sound.changes hs.changes) (keyed.changes hs.changes) fun ht => ?_)
    obtain ⟨front, untold⟩ := front ht
    exact ⟨(hs.foreground_eq untold).trans front, untold⟩

/-! ## Results of steps -/

/-- The journey is looked after, and remembered only while it has a step. -/
structure Settled (timely : Prop) (e : Engine) (id : JourneyId) : Prop where
  attended : e.Attended timely id
  noted : e.Noted id

theorem noted_finish (e : Engine) (alive : j.isTerminal = false) (reason : ExitReason) :
    (e.finish j reason).Noted j.id := by
  intro hp
  rw [finish_eq e alive] at hp
  simp at hp

theorem settled_finish (e : Engine) (alive : j.isTerminal = false) (reason : ExitReason) :
    (e.finish j reason).Settled timely j.id :=
  ⟨attended_of_gone (gone_finish e alive reason), noted_finish e alive reason⟩

theorem noted_driveAt (alive : j.isTerminal = false) (resolved : e.resolves j.campaignId = true)
    (reason : ResumeReason) : (e.driveAt j reason).Noted j.id := by
  unfold driveAt
  split
  · rename_i hc
    rw [if_pos (by simpa [Engine.resolves, hc] using resolved)]
    exact noted_finish e alive _
  · split
    · exact noted_finish e alive _
    · exact fun _ => isFlying_iff.mpr ⟨_, List.mem_append_right _ (List.mem_singleton_self _), rfl⟩

/-- Driving settles a journey in the mirror. -/
theorem settled_drive (sound : e.Sound) (resolved : e.Resolved j.id)
    (under_way : j ∈ e.store.active) (reason : ResumeReason) :
    (e.drive j.id reason).Settled timely j.id := by
  refine ⟨attended_drive sound resolved reason, ?_⟩
  unfold drive
  split
  · rename_i flying
    exact fun _ => flying
  · split
    · rename_i k hk
      obtain ⟨hm, hid⟩ := mem_of_get? hk
      obtain rfl := sound.distinct.eq_of_id hm under_way hid
      have alive := sound.alive k hm
      rw [if_neg (by simp [alive])]
      exact noted_driveAt alive (resolved k hm rfl) reason
    · rename_i hk
      exact (get?_eq_none.mp hk j under_way rfl).elim

theorem settled_advance (sound : e.Sound) (under_way : j ∈ e.store.active)
    (free : e.isFlying j.id = false) (resolved : e.Resolved j.id) (next : String)
    {kind : Analytics.Kind} (arrival : kind.isArrival = true) (on_way : kind ≠ .entered) :
    (e.advance j next kind).Settled timely j.id := by
  have alive := sound.alive j under_way
  rcases e.advance_cases alive next kind with
    ⟨k, store, reason, continues, alive', -, -, he⟩ | ⟨store, saved, he⟩
  · rw [he, ← continues.id]
    exact settled_finish _ alive' reason
  · have first := quiets_moved under_way alive free arrival on_way saved
    have here : e.movedTo j next ∈ (e.moved store j next kind).store.active :=
      (Store.puts_of_save saved).active ▸ mem_upsert_self _ _
    rw [he]
    exact settled_drive (j := e.movedTo j next) (sound.changes first.changes)
      (resolved.quiets first) here .advance

theorem settled_drivePending (sound : e.Sound) (resolved : e.Resolved id)
    (attended : e.Attended timely id) : (e.drivePending id).Settled timely id := by
  unfold drivePending
  split
  · rename_i reason hr
    refine ⟨attended_drive (e := { e with pending := e.pending.erase id })
      ⟨sound.distinct, sound.alive⟩ resolved reason, (calms_drive _ _ _).noted fun hp => ?_⟩
    simp at hp
  · rename_i hn
    exact ⟨attended, fun hp => by simp [hn] at hp⟩

theorem settled_park (sound : e.Sound) (under_way : j ∈ e.store.active)
    (free : e.isFlying j.id = false) (resolved : e.Resolved j.id) (front : timely → e.foreground = true)
    (deadline : Option Instant) : (e.park j deadline).Settled timely j.id := by
  have alive := sound.alive j under_way
  -- The timer is set for the journey as it is in the mirror by then.
  have timed : ∀ e₁ : Engine, Quiets e e₁ → e₁.foreground = e.foreground →
      (∀ k ∈ e₁.store.active, k.id = j.id →
        k.status = .paused ∧ k.resumeAt = deadline ∧ k.node = j.node) →
      ((e₁.setTimer (e.parkedUntil j deadline)).drivePending j.id).Settled timely j.id := by
    intro e₁ quiets here waits
    have hq : Quiets e (e₁.setTimer (e.parkedUntil j deadline)) :=
      quiets.tail (.aside (.setTimer _ _))
    refine settled_drivePending (sound.changes hq.changes) (resolved.quiets hq) fun k hk hid _ => ?_
    rw [setTimer_store] at hk
    obtain ⟨paused, due, node⟩ := waits k hk hid
    refine ⟨paused, fun ht hd => ?_⟩
    obtain ⟨t, hm, htid, htn⟩ := timed_setTimer_self (e := e₁) (k := e.parkedUntil j deadline)
      (here.trans (front ht)) (due ▸ hd)
    exact ⟨t, hm, htid.trans hid.symm, htn.trans node.symm⟩
  rcases e.park_cases alive deadline with ⟨store, fault, -, he⟩ |
    ⟨e₁, he, ⟨paused, due, rfl⟩ | ⟨store, saved, rfl⟩⟩ <;> rw [he]
  · exact settled_finish _ rfl _
  · refine timed _ (.of_aside (.steps e (e.steps.erase j.id))) rfl fun k hk hid => ?_
    obtain rfl := sound.distinct.eq_of_id hk under_way hid
    exact ⟨paused, due, rfl⟩
  · refine timed _ (quiets_parked under_way alive free saved) rfl fun k hk hid => ?_
    rcases (mem_upsert_iff sound.distinct).mp ((Store.puts_of_save saved).active ▸ hk) with
      rfl | ⟨-, hne⟩
    · exact ⟨rfl, rfl, rfl⟩
    · exact (hne hid).elim

/-- Its result settles the journey of a step. -/
theorem settled_apply (sound : e.Sound) (under_way : j ∈ e.store.active)
    (free : e.isFlying j.id = false) (resolved : e.Resolved j.id)
    (front : timely → e.foreground = true) (result : StepResult) :
    (e.apply j result).Settled timely j.id := by
  have alive := sound.alive j under_way
  match result with
  | .proceed next => exact settled_advance sound under_way free resolved next rfl (by decide)
  | .skip (some next) => exact settled_advance sound under_way free resolved next rfl (by decide)
  | .skip none => exact settled_finish e alive _
  | .suspend deadline => exact settled_park sound under_way free resolved front deadline
  | .complete reason => exact settled_finish e alive reason

/-- A step that lands leaves its journey settled, and the others where they lie. -/
theorem attends_onStep {f : Flight} (sound : e.Sound) (orderly : e.Orderly) (keyed : e.Keyed)
    (minded : e.Minded) (front : timely → e.foreground = true) (hf : f ∈ e.flights) {task : Nat}
    (taken : (e.flight? f.journey.id).any (·.task = task) = true) (result : StepResult) :
    let e' := e.onStep task f.journey.id f.node.id result
    Attends timely e e' ∧ ∀ id, e.Noted id → e'.Noted id := by
  intro e'
  obtain ⟨j, hj, of_j, he⟩ := onStep_of_flight sound orderly hf taken result
  let landed : Engine := { e with flights := e.flights.filter (·.journey.id ≠ j.id) }
  have sound' : landed.Sound := ⟨sound.distinct, sound.alive⟩
  have free : landed.isFlying j.id = false := by simp [landed, isFlying_eq_false]
  have resolved : landed.Resolved j.id :=
    minded j.id (isFlying_iff.mpr ⟨f, hf, of_j.id⟩)
  have deeds : Deeds (.report (.step task j.id f.node.id result)) landed []
      (landed.apply j result) :=
    deeds_apply (e := landed) hj (sound.alive j hj) free resolved (if_pos rfl)
  have settled : (landed.apply j result).Settled timely j.id :=
    settled_apply sound' hj free resolved front result
  -- A journey without a step after the landing had none before, but for the one that landed.
  have others : ∀ id, id ≠ j.id → landed.isFlying id = e.isFlying id := by
    intro id hne
    rw [Bool.eq_iff_iff, isFlying_iff, isFlying_iff]
    constructor
    · rintro ⟨g, hg, hid⟩
      exact ⟨g, (List.mem_filter.mp hg).1, hid⟩
    · rintro ⟨g, hg, hid⟩
      exact ⟨g, List.mem_filter.mpr ⟨hg, by simpa [hid] using hne⟩, hid⟩
  have attends : Attends timely e (landed.apply j result) := by
    intro k hk free'
    by_cases hid : k.id = j.id
    · exact .inr (settled.attended k hk hid (hid ▸ free'))
    · refine (deeds.attends sound' keyed (fun ht => ⟨front ht, rfl⟩) k hk free').imp_left ?_
      rintro ⟨i, hi, remains, still, timed⟩
      exact ⟨i, hi, remains, others i.id (remains.id ▸ hid) ▸ still, timed⟩
  have noted : ∀ id, e.Noted id → (landed.apply j result).Noted id := by
    intro id hn
    by_cases hid : id = j.id
    · exact hid ▸ settled.noted
    · exact deeds.noted fun hp => (others id hid).trans (hn hp)
  unfold e'
  rw [he]
  split
  · have calms := calms_retryPresentations (landed.apply j result) (some j.id)
    have here := deeds.foreground_eq rfl
    exact ⟨attends.trans (calms.attends (sound'.changes deeds.changes)
      fun ht => here.trans (front ht)), fun id hn => calms.noted (noted id hn)⟩
  · exact ⟨attends, noted⟩

/-! ## All messages -/

/-- The engine is in order, and the message is one that it may be handed. -/
structure Hears (e : Engine) (m : Message) : Prop where
  sound : e.Sound
  orderly : e.Orderly
  keyed : e.Keyed
  minded : e.Minded
  not_boot : m ≠ .command .boot
  /-- The report of a step under way names its place. -/
  named : ∀ task id node result, m = .report (.step task id node result) →
    ∀ f ∈ e.flights, f.task = task → f.journey.id = id ∧ f.node.id = node

namespace Hears

theorem issued_le (hears : e.Hears m) : e.issued ≤ (e.handle m).issued := by
  simpa using (changes_handle hears.sound hears.not_boot).issued_le

theorem changes (hears : e.Hears m) : Changes (e.takeIn m) (e.handle m) :=
  changes_handle hears.sound hears.not_boot

/-- What is done on the message, with the admissions that are listed for it. -/
theorem deeds (hears : e.Hears m) : Deeds m (e.takeIn m) (e.admissions m) (e.handle m) :=
  deeds_handle hears.sound (fun _ _ _ _ _ => hears.minded) hears.not_boot

/-- Handling a message leaves each journey without a step where it lay, or tended; a signal about
the app may bear on deadlines. What is remembered is remembered of journeys with a step. -/
theorem keeps (hears : e.Hears m) (front : timely → e.foreground = true ∧ m.signal? = none) :
    Attends timely e (e.handle m) ∧ ∀ id, e.Noted id → (e.handle m).Noted id := by
  obtain ⟨sound, orderly, keyed, minded, not_boot, named⟩ := hears
  by_cases step : ∃ task id node result, m = .report (.step task id node result)
  · obtain ⟨task, id, node, result, rfl⟩ := step
    have he : e.handle (.report (.step task id node result)) = e.onStep task id node result := rfl
    rw [he]
    by_cases taken : (e.flight? id).any (·.task = task) = true
    · obtain ⟨f, hf, ht⟩ := (Option.any_eq_true _ _).mp taken
      have hmem := List.mem_of_find?_eq_some hf
      obtain ⟨rfl, rfl⟩ := named task id node result rfl f hmem (by simpa using ht)
      exact attends_onStep sound orderly keyed minded (fun ht => (front ht).1) hmem taken result
    · rw [onStep_of_stale (by simpa using taken)]
      exact ⟨.refl e, fun _ hn => hn⟩
  · have flights : (e.takeIn m).flights = e.flights := by
      unfold takeIn
      split
      · split <;> rfl
      · rfl
      · exact (step ⟨_, _, _, _, rfl⟩).elim
      · rfl
    have taken : Attends timely e (e.takeIn m) :=
      .of_frame (by simp) flights fun _ j _ timed => by simpa [Timed] using timed
    have deeds := deeds_handle sound (fun _ _ _ _ _ => minded) not_boot
    refine ⟨taken.trans (deeds.attends ((Happens.takeIn e m).sound sound) (keyed.takeIn m)
      fun ht => ⟨by simpa using (front ht).1, (front ht).2⟩), fun id hn => deeds.noted fun hp => ?_⟩
    rw [isFlying_iff, flights, ← isFlying_iff]
    exact hn (by simpa using hp)

theorem attends (hears : e.Hears m) (front : timely → e.foreground = true ∧ m.signal? = none) :
    Attends timely e (e.handle m) := (hears.keeps front).1

theorem noted (hears : e.Hears m) (noted : e.Noted id) : (e.handle m).Noted id := by
  have keeps : Attends False e (e.handle m) ∧ ∀ id, e.Noted id → (e.handle m).Noted id :=
    hears.keeps False.elim
  exact keeps.2 id noted

end Hears

/-! ## Coming up -/

section

variable {snapshot : Snapshot} {profile : Profile}

theorem resolved_of_loaded (loaded : e.profileLoaded = true) : e.Resolved id :=
  fun _ _ _ => by simp [Engine.resolves, loaded]

/-- A journey that is taken up waits for its deadline or is driven. -/
theorem attended_restore (sound : e.Sound) (loaded : e.profileLoaded = true)
    (front : timely → e.foreground = true) (under_way : j ∈ e.store.active) (now : Instant) :
    (e.restore now j).Attended timely j.id := by
  unfold restore
  split
  · rename_i waits
    intro k hk hid _
    rw [setTimer_store] at hk
    obtain rfl := sound.distinct.eq_of_id hk under_way hid
    exact ⟨waits.1, fun ht hd => timed_setTimer_self (front ht) hd⟩
  · exact attended_drive sound (resolved_of_loaded loaded) .restore

theorem attended_restores (now : Instant) (l : List Journey) (e : Engine) (sound : e.Sound)
    (loaded : e.profileLoaded = true) (front : timely → e.foreground = true)
    (distinct : DistinctIds l) (under_way : ∀ j ∈ l, j ∈ e.store.active) :
    ∀ j ∈ l, (l.foldl (·.restore now) e).Attended timely j.id := by
  induction l generalizing e with
  | nil => simp
  | cons i l ih =>
    have hi := under_way i (by simp)
    have first : Calms e (e.restore now i) := calms_restore hi
    have sound' := sound.changes first.changes
    have front' : timely → (e.restore now i).foreground = true :=
      fun ht => first.foreground_eq.trans (front ht)
    have later : ∀ k ∈ l, k ∈ (e.restore now i).store.active :=
      fun k hk => mem_restore (under_way k (by simp [hk])) (distinct.head_ne hk)
    intro j hj
    rcases List.mem_cons.mp hj with rfl | hj
    · have here : (e.restore now j).Attended timely j.id :=
        attended_restore sound loaded front hi now
      exact here.attends ((calms_restores now l _ distinct.tail later).attends sound' front')
    · have loaded' := first.changes.profileLoaded_eq.trans loaded
      exact ih _ sound' loaded' front' distinct.tail later j hj

theorem BootsFrom.foreground_eq (boots : e.BootsFrom snapshot) : e.foreground = true :=
  (congrArg Engine.foreground boots.down).symm

theorem BootsFrom.calms_raise (boots : e.BootsFrom snapshot) :
    Calms e.greeted (Session.raise e).engine := calms_boot boots.held

theorem BootsFrom.greeted_foreground (boots : e.BootsFrom snapshot) :
    e.greeted.foreground = true := by
  obtain ⟨campaigns, installed, hg⟩ := e.greeted_eq
  rw [hg]
  exact boots.foreground_eq

/-- The engine takes up the journeys that storage holds, and then checks their goals. -/
theorem BootsFrom.raise_eq (boots : e.BootsFrom snapshot) : (Session.raise e).engine =
    (e.greeted.store.active.foldl checkGoal
      (e.greeted.store.active.foldl (·.restore e.now) e.greeted)).answer (.done e.onBoot.2) :=
  congrArg (·.answer (.done e.onBoot.2)) (congrArg Prod.fst (onBoot_eq boots.held))

theorem profileLoaded_greeted (fetched : e.host.fetchProfile = .ok profile) :
    e.greeted.profileLoaded = true := by simp [greeted, fetched, install]

/-- An engine that comes up with a profile looks after every journey that it takes up. -/
theorem BootsFrom.attended_raise (boots : e.BootsFrom snapshot)
    (fetched : e.host.fetchProfile = .ok profile) (id : JourneyId) :
    (Session.raise e).engine.Attended timely id := by
  have sound := sound_greeted boots.held
  have loaded := profileLoaded_greeted fetched
  have front : timely → e.greeted.foreground = true := fun _ => boots.greeted_foreground
  let journeys := e.greeted.store.active
  let restored : Engine := journeys.foldl (·.restore e.now) e.greeted
  have attended : ∀ j ∈ journeys, restored.Attended timely j.id :=
    attended_restores e.now journeys e.greeted sound loaded front sound.distinct fun _ hj => hj
  have first : Calms e.greeted restored :=
    calms_restores e.now journeys e.greeted sound.distinct fun _ hj => hj
  have rest : Calms restored (Session.raise e).engine := by
    rw [boots.raise_eq]
    exact (Calms.foldl calms_checkGoal journeys restored).tail (.answer _ _)
  rintro k hk rfl free
  rcases boots.calms_raise.attends sound front k hk free with ⟨j, hj, remains, -, -⟩ | tended
  · have here := (attended j hj).attends (rest.attends (sound.changes first.changes) fun ht =>
      first.foreground_eq.trans (front ht))
    exact here k hk remains.id (remains.id ▸ free)
  · exact tended

end

end Engine

end Engagement
