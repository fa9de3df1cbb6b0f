import Engagement.Proofs.Engine.Admission
import Engagement.Proofs.Engine.Arrivals

/-! # Waking waiting journeys

An event or a change of segments drives the journeys of a user that wait. A journey with a step
under way is remembered and driven again once the step parks. So it stays roused until its node is
executed by a later step, unless it arrives elsewhere or ends before.
-/

namespace Engagement

namespace Engine

variable {e e' : Engine} {j : Journey} {id : JourneyId} {a n : Nat}

/-- A step of the journey with a number above `n` has not begun, or the journey is to be driven
again once its present step parks. -/
def Roused (e : Engine) (n : Nat) (id : JourneyId) : Prop :=
  ∃ f ∈ e.flights, f.journey.id = id ∧
    (n < f.task ∧ f.phase = .ready ∨ (e.pending.get? id).isSome)

/-- The journey has left the mirror, has arrived more than `a` times, or is roused. -/
def Heeded (e : Engine) (a n : Nat) (id : JourneyId) : Prop :=
  (e.Gone id ∨ a < e.arrivals id) ∨ e.Roused n id

theorem Roused.isFlying (roused : e.Roused n id) : e.isFlying id = true := by
  obtain ⟨f, hf, hid, -⟩ := roused
  exact isFlying_iff.mpr ⟨f, hf, hid⟩

theorem Roused.change (roused : e.Roused n id) (h : Change e e') :
    e'.Gone id ∨ e'.Roused n id := by
  have flying := roused.isFlying
  obtain ⟨f, hf, hid, hr⟩ := roused
  rcases h.leaves_or_keeps with ⟨other, leaves⟩ | ⟨flights, pending⟩
  · by_cases ho : id = other
    · exact .inl (ho ▸ leaves.gone)
    · refine .inr ⟨f, ?_, hid, hr.imp_right fun hp => ?_⟩
      · rw [leaves.flights]
        exact List.mem_filter.mpr ⟨hf, by simpa [hid] using ho⟩
      · rwa [leaves.pending, Table.get?_erase_of_ne _ ho]
  · exact .inr ⟨f, flights.subset hf, hid, hr.imp_right (pending id flying)⟩

theorem Heeded.changes (heeded : e.Heeded a n id) (ha : a ≤ e.arrivals id) (h : Changes e e') :
    e'.Heeded a n id := by
  induction h with
  | refl => exact heeded
  | tail hs h ih =>
    rcases ih with settled | roused
    · have hle := Nat.le_trans ha (Changes.arrivals_le hs)
      exact .inl (Changes.settles (.single h) hle settled)
    · exact (roused.change h).imp_left .inl

/-! ## Campaigns of journeys under way -/

/-- Whether a campaign is installed, or would be if it was not withdrawn. -/
def resolves (e : Engine) (campaign : String) : Bool :=
  e.profileLoaded || (e.campaigns.get? campaign).isSome

/-- The campaign of a journey in the mirror is not merely unknown yet. -/
def Resolved (e : Engine) (id : JourneyId) : Prop :=
  ∀ j ∈ e.store.active, j.id = id → e.resolves j.campaignId = true

theorem Quiet.continues (h : Quiet e e') {k : Journey} (hk : k ∈ e'.store.active) :
    ∃ j ∈ e.store.active, j.Continues k := by
  rcases h.store_cases with hs | ⟨i, l, hi, continues, ⟨-, puts⟩ | ⟨reason, completes⟩⟩
  · exact ⟨k, hs ▸ hk, .refl k⟩
  · rcases mem_of_mem_upsert (puts.active ▸ hk) with rfl | hk
    · exact ⟨i, hi, continues⟩
    · exact ⟨k, hk, .refl k⟩
  · exact ⟨k, (mem_without.mp (completes.active ▸ hk)).1, .refl k⟩

theorem Quiets.continues (h : Quiets e e') {k : Journey} (hk : k ∈ e'.store.active) :
    ∃ j ∈ e.store.active, j.Continues k := by
  induction h generalizing k with
  | refl => exact ⟨k, hk, .refl k⟩
  | tail _ h ih =>
    obtain ⟨j, hj, continues⟩ := h.continues hk
    obtain ⟨i, hi, continues'⟩ := ih hj
    exact ⟨i, hi, continues'.trans continues⟩

theorem Change.profileLoaded_eq (h : Change e e') : e'.profileLoaded = e.profileLoaded := by
  rw [h.frame]
  rfl

theorem Changes.profileLoaded_eq (h : Changes e e') : e'.profileLoaded = e.profileLoaded := by
  rw [h.frame]
  rfl

theorem Change.resolves_eq (h : Change e e') : e'.resolves = e.resolves := by
  unfold resolves
  rw [h.profileLoaded_eq, h.campaigns_eq]

theorem Changes.resolves_eq (h : Changes e e') : e'.resolves = e.resolves := by
  unfold resolves
  rw [h.profileLoaded_eq, h.campaigns_eq]

theorem Resolved.quiets (resolved : e.Resolved id) (h : Quiets e e') : e'.Resolved id := by
  intro k hk hid
  obtain ⟨j, hj, continues⟩ := h.continues hk
  rw [h.changes.resolves_eq, continues.campaignId]
  exact resolved j hj (continues.id.symm.trans hid)

/-- A journey whose campaign is unknown can only come in by arriving. -/
theorem Resolved.change (resolved : e.Resolved id) (h : Change e e') :
    e'.Resolved id ∨ e.arrivals id < e'.arrivals id := by
  have kept : (∀ k ∈ e'.store.active, k.id = id → k ∈ e.store.active) → e'.Resolved id := by
    intro hsub k hk hid
    rw [h.resolves_eq]
    exact resolved k (hsub k hk hid) hid
  cases h with
  | quiet h => exact .inl (resolved.quiets (.single h))
  | @start j h =>
    cases h with
    | @enter _ _ _ _ store known admitted new saved =>
      have active := (Store.puts_of_save saved).active
      by_cases hid : j.id = id
      · right
        obtain ⟨tasks, last, h, -⟩ := checkGoal_eq
          { e with issued := e.issued + 1, store := store } j
        rw [h, arrivals_report, if_pos ⟨rfl, hid⟩]
        exact Nat.lt_succ_self _
      · refine .inl (kept fun k hk hkid => ?_)
        rw [report_store, checkGoal_store, active] at hk
        rcases mem_of_mem_upsert hk with rfl | hk
        · exact (hid hkid).elim
        · exact hk
    | fail known admitted new refused =>
      have alive : j.isTerminal = false := new ▸ rfl
      refine .inl (kept fun k hk _ => ?_)
      rw [giveUp, (completes_finish alive _ (.inr ⟨_, refused⟩)).active] at hk
      exact (mem_without.mp hk).1

theorem Resolved.changes (resolved : e.Resolved id) (h : Changes e e') :
    e'.Resolved id ∨ e.arrivals id < e'.arrivals id := by
  induction h with
  | refl => exact .inl resolved
  | tail hs h ih =>
    rcases ih with ih | hlt
    · exact (ih.change h).imp_right (Nat.lt_of_le_of_lt (Changes.arrivals_le hs))
    · exact .inr (Nat.lt_of_lt_of_le hlt h.arrivals_le)

theorem resolves_insert (e : Engine) (campaign : Campaign) {id : String}
    (h : e.resolves id = true) :
    { e with campaigns := e.campaigns.insert campaign.id campaign }.resolves id = true := by
  rw [resolves, Bool.or_eq_true] at h ⊢
  exact h.imp_right (Table.get?_insert_isSome _ campaign)

/-- A message takes a campaign away only by installing a profile. -/
theorem Resolved.takeIn (resolved : e.Resolved id) (m : Message) : (e.takeIn m).Resolved id := by
  intro k hk hid
  have hr := resolved k (by simpa using hk) hid
  unfold Engine.takeIn
  split
  · split
    · exact resolves_insert e _ hr
    · exact hr
  · simp [resolves, install]
  · split <;> exact hr
  · exact hr

theorem Resolved.drift (resolved : e.Resolved id) (d : Drift e e') : e'.Resolved id := by
  intro k hk hid
  have hr := resolved k (d.active ▸ hk) hid
  unfold resolves at hr ⊢
  rwa [d.profileLoaded, d.campaigns]

/-! ## Driving -/

theorem roused_driveAt (alive : j.isTerminal = false) (resolved : e.resolves j.campaignId = true)
    (hn : n ≤ e.lastTask) (reason : ResumeReason) :
    (e.driveAt j reason).Gone j.id ∨ (e.driveAt j reason).Roused n j.id := by
  unfold driveAt
  split
  · rename_i hc
    rw [if_pos (by simpa [resolves, hc] using resolved)]
    exact .inl (gone_finish e alive _)
  · split
    · exact .inl (gone_finish e alive _)
    · refine .inr ⟨_, List.mem_append_right _ (List.mem_singleton_self _), rfl, .inl ⟨?_, rfl⟩⟩
      exact Nat.lt_succ_of_le hn

/-- A drive sets off a step, or is remembered. -/
theorem roused_drive (sound : e.Sound) (resolved : e.Resolved id) (hn : n ≤ e.lastTask)
    (reason : ResumeReason) : (e.drive id reason).Gone id ∨ (e.drive id reason).Roused n id := by
  unfold drive
  split
  · rename_i flying
    obtain ⟨f, hf, hid⟩ := isFlying_iff.mp flying
    exact .inr ⟨f, hf, hid, .inr (by simp)⟩
  · split
    · rename_i j hj
      obtain ⟨hm, rfl⟩ := mem_of_get? hj
      have alive := sound.alive j hm
      rw [if_neg (by simp [alive])]
      exact roused_driveAt alive (resolved j hm rfl) hn reason
    · rename_i hj
      exact .inl (get?_eq_none.mp hj)

theorem roused_drivePending (sound : e.Sound) (resolved : e.Resolved id) (hn : n ≤ e.lastTask)
    (hp : (e.pending.get? id).isSome) :
    (e.drivePending id).Gone id ∨ (e.drivePending id).Roused n id := by
  obtain ⟨reason, hr⟩ := Option.isSome_iff_exists.mp hp
  unfold drivePending
  rw [hr]
  exact roused_drive (e := { e with pending := e.pending.erase id }) ⟨sound.distinct, sound.alive⟩
    resolved hn reason

/-- A journey that parks is driven again if that is remembered. -/
theorem roused_park (sound : e.Sound) (resolved : e.Resolved j.id) (under_way : j ∈ e.store.active)
    (free : e.isFlying j.id = false) (hn : n ≤ e.lastTask)
    (hp : (e.pending.get? j.id).isSome) (deadline : Option Instant) :
    (e.park j deadline).Gone j.id ∨ (e.park j deadline).Roused n j.id := by
  have alive := sound.alive j under_way
  -- Setting the timer leaves all that matters as it is.
  have timed : ∀ (e₁ : Engine) (parked : Journey), Quiets e e₁ → e₁.pending = e.pending →
      e₁.lastTask = e.lastTask →
      ((e₁.setTimer parked).drivePending j.id).Gone j.id ∨
        ((e₁.setTimer parked).drivePending j.id).Roused n j.id := by
    intro e₁ parked quiets pending last
    have hq : Quiets e (e₁.setTimer parked) := quiets.tail (.aside (.setTimer _ _))
    apply roused_drivePending (sound.changes hq.changes) (resolved.quiets hq)
    · rw [setTimer_lastTask]
      exact last.symm ▸ hn
    · rw [setTimer_pending]
      exact pending.symm ▸ hp
  rcases e.park_cases alive deadline with ⟨store, fault, -, he⟩ |
    ⟨e₁, he, ⟨-, -, rfl⟩ | ⟨store, saved, rfl⟩⟩ <;> rw [he]
  · exact .inl (gone_finish _ rfl _)
  · exact timed _ _ (.of_aside (.steps e _)) rfl rfl
  · exact timed _ _ (quiets_parked under_way alive free saved) rfl rfl

/-- A step that makes its journey wait lets it be driven again if that is remembered. -/
theorem roused_onStep {f : Flight} (sound : e.Sound) (orderly : e.Orderly) (hf : f ∈ e.flights)
    (resolved : e.Resolved f.journey.id) (hn : n ≤ e.lastTask)
    (hp : (e.pending.get? f.journey.id).isSome) {task : Nat}
    (taken : (e.flight? f.journey.id).any (·.task = task) = true) {result : StepResult}
    (waits : result.isSuspend = true) :
    (e.onStep task f.journey.id f.node.id result).Gone f.journey.id ∨
      (e.onStep task f.journey.id f.node.id result).Roused n f.journey.id := by
  obtain ⟨j, hj, of_j, he⟩ := onStep_of_flight sound orderly hf taken result
  rw [he, waits]
  match result with
  | .suspend deadline =>
    rw [of_j.id] at resolved hp ⊢
    exact roused_park (e := { e with flights := e.flights.filter (·.journey.id ≠ j.id) })
      ⟨sound.distinct, sound.alive⟩ resolved hj (by simp [isFlying_eq_false]) hn hp deadline

/-! ## Messages that wake -/

/-- The user whose waiting journeys are driven on a message. -/
def rechecked? (e : Engine) : Message → Option String
  | .command (.event event) => some event.occurrence.distinctId
  | .command .segmentsChanged => some e.user
  | _ => none

theorem mem_activeFor {store : Store} {user : String} :
    j ∈ store.activeFor user ↔ j ∈ store.active ∧ j.distinctId = user := by
  simp [Store.activeFor]

theorem Changes.atWait_eq (h : Changes e e') : e'.atWait j = e.atWait j := by
  unfold atWait node?
  rw [h.campaigns_eq]

theorem resolved_of_node? (sound : e.Sound) (hj : j ∈ e.store.active) {p : Node → Bool}
    (h : (e.node? j).any p = true) : e.Resolved j.id := by
  intro k hk hid
  obtain rfl := sound.distinct.eq_of_id hk hj hid
  rcases hc : e.campaigns.get? k.campaignId with _ | campaign
  · simp [node?, hc] at h
  · simp [resolves, hc]

/-- Looking at a user's journeys again wakes each of them that waits. -/
theorem heeded_recheck (sound : e.Sound) (hj : j ∈ e.store.active) (waits : e.atWait j = true)
    (reason : ResumeReason) :
    (e.recheck j.distinctId reason).Heeded (e.arrivals j.id) e.lastTask j.id := by
  obtain ⟨before, after, hl⟩ := List.append_of_mem (mem_activeFor.mpr ⟨hj, rfl⟩)
  rw [recheck_eq, hl, List.foldl_append, List.foldl_cons]
  have first : Quiets e (before.foldl (look reason) e) := Quiets.foldl (quiets_look reason) before e
  generalize before.foldl (look reason) e = e₁ at first
  have checked : Quiets e (e₁.checkGoal j) := first.trans (quiets_checkGoal e₁ j)
  have waits₁ : e₁.atWait j = true := first.changes.atWait_eq.trans waits
  have here : (look reason e₁ j).Gone j.id ∨ (look reason e₁ j).Roused e.lastTask j.id := by
    rw [look, if_pos waits₁]
    exact roused_drive (sound.changes checked.changes)
      ((resolved_of_node? sound hj waits).quiets checked) checked.changes.lastTask_le reason
  have heeded : (look reason e₁ j).Heeded (e.arrivals j.id) e.lastTask j.id := here.imp_left .inl
  have looked : Quiets e (look reason e₁ j) := first.trans (quiets_look reason e₁ j)
  have later := Quiets.foldl (quiets_look reason) after (look reason e₁ j)
  exact heeded.changes looked.changes.arrivals_le later.changes

/-- A message on which a user's journeys are looked at again wakes each of them that waits. -/
theorem heeded_handle (sound : e.Sound) (hj : j ∈ e.store.active) (waits : e.atWait j = true)
    {m : Message} (rechecked : e.rechecked? m = some j.distinctId) :
    (e.handle m).Heeded (e.arrivals j.id) e.lastTask j.id := by
  unfold rechecked? at rechecked
  split at rechecked
  · rename_i event
    have user : event.occurrence.distinctId = j.distinctId := Option.some.inj rechecked
    have heeded := heeded_recheck sound hj waits (.event event.occurrence.name)
    rw [← user] at heeded
    apply heeded.changes (quiets_recheck e _ _).changes.arrivals_le
    exact (traces_along event _ _ fun c hc => (mem_chosen hc).1).changes
  · have user : e.user = j.distinctId := Option.some.inj rechecked
    have heeded := heeded_recheck sound hj waits .segmentChange
    rw [← user] at heeded
    apply heeded.changes (quiets_recheck e _ _).changes.arrivals_le
    exact Quiets.changes (Quiets.foldl (fun e c => .of_aside (.spawn e _)) _ _)
  · cases rechecked

end Engine

end Engagement
