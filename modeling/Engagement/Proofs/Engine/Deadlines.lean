import Engagement.Proofs.Engine.Attention
import Engagement.Proofs.Time.Spans

/-! # Deadlines

In the foreground a journey that waits for a deadline has a timer, or a timer of it has fired and is
still to be heard of. A timer that fires early or late is set again, and coming back to the
foreground sets the timers that the background took away.
-/

namespace Engagement

namespace Lifecycle

/-- Whether the app is in the foreground after a signal. -/
def isFront : Lifecycle → Bool
  | .enteredBackground => false
  | .entersForeground | .becameActive => true

/-- Out of the background the app enters the foreground before it becomes active. -/
def inOrder (front : Bool) : List Lifecycle → Bool
  | [] => true
  | signal :: signals => (front || signal ≠ .becameActive) && inOrder signal.isFront signals

/-- Whether the app is in the foreground after some signals. -/
def frontAfter (front : Bool) (signals : List Lifecycle) : Bool :=
  signals.foldl (fun _ signal => signal.isFront) front

theorem inOrder_append {front : Bool} {l l' : List Lifecycle} :
    inOrder front (l ++ l') = (inOrder front l && inOrder (frontAfter front l) l') := by
  induction l generalizing front with
  | nil => rfl
  | cons signal l ih => simp [inOrder, ih, frontAfter, Bool.and_assoc]

end Lifecycle

namespace Engine

variable {timely : Prop} {e e' : Engine} {j k : Journey} {id : JourneyId} {m : Message}
  {l : List Journey} {late : List Message}

/-! ## The foreground -/

theorem calms_becameActive (front : e.foreground = true) :
    Calms e (e.onLifecycle .becameActive) := by
  have here : { e with foreground := true } = e := by rw [← front]
  unfold onLifecycle
  dsimp only
  rw [here]
  exact ((calms_dropGrace e).tail (.spawn _ rfl)).tail (.grace _ _)

theorem onLifecycle_foreground (e : Engine) (signal : Lifecycle) :
    (e.onLifecycle signal).foreground = signal.isFront := by
  cases signal with
  | enteredBackground =>
    exact (calms_dropGrace { e with foreground := false, presentationReady := false }).foreground_eq
  | entersForeground =>
    rw [onLifecycle_entersForeground]
    have rearmed := calms_rearms e.now e.store.active { e with foreground := true } fun _ hj => hj
    exact Calms.foreground_eq
      ((rearmed.trans (calms_onResumeDue _)).trans (Calms.foldl calms_checkGoal _ _))
  | becameActive => exact (calms_dropGrace { e with foreground := true }).foreground_eq

theorem Hears.foreground (hears : e.Hears m) :
    (e.handle m).foreground = (m.signal?.map Lifecycle.isFront).getD e.foreground := by
  rcases hs : m.signal? with _ | signal
  · exact (hears.deeds.foreground_eq hs).trans (takeIn_foreground e m)
  · unfold Message.signal? at hs
    split at hs
    · obtain rfl := Option.some.inj hs
      exact onLifecycle_foreground e _
    · cases hs

/-! ## Timers that fire -/

theorem Timed.of_place (timed : e.Timed j) (id : k.id = j.id) (node : k.node = j.node) :
    e.Timed k := by
  obtain ⟨t, ht, hid, hn⟩ := timed
  exact ⟨t, ht, hid.trans id.symm, hn.trans node.symm⟩

/-- When a timer of a journey has fired, the journey is driven or has a timer again. -/
theorem timed_onTimer (sound : e.Sound) (loaded : e.profileLoaded = true)
    (front : e.foreground = true) (hk : k ∈ (e.onTimer k.id k.node).store.active)
    (paused : k.status = .paused) (deadline : k.resumeAt.isSome)
    (free : (e.onTimer k.id k.node).isFlying k.id = false) :
    (e.onTimer k.id k.node).Timed k := by
  have attends : Attends True e (e.onTimer k.id k.node) :=
    (calms_onTimer e k.id k.node).attends sound fun _ => front
  rcases attends k hk free with
    ⟨j, hj, remains, -, -⟩ | tended
  · have hg : (e.releaseTimer k.id).store.get? k.id = some j :=
      remains.id ▸ sound.get?_eq hj
    obtain ⟨d, hd⟩ := Option.isSome_iff_exists.mp (remains.resumeAt ▸ deadline)
    have here : ¬ (j.status ≠ .paused ∨ j.node ≠ k.node) := by
      simp [← remains.status, paused, remains.node]
    unfold onTimer at hk free ⊢
    simp only [hg, if_neg here, hd] at hk free ⊢
    split
    · rename_i due
      rw [if_pos due] at hk free
      have attended : ((e.releaseTimer k.id).drive k.id .timer).Attended True k.id :=
        attended_drive (e := e.releaseTimer k.id) ⟨sound.distinct, sound.alive⟩
          (resolved_of_loaded loaded) .timer
      exact (attended k hk rfl free).timed trivial deadline
    · exact (timed_setTimer_self (e := e.releaseTimer k.id) (k := j) front (by simp [hd])).of_place
        remains.id remains.node
  · exact tended.timed trivial deadline

/-! ## Coming back to the foreground -/

theorem Timed.rearm {now : Instant} (timed : e.Timed j) (here : j.id = k.id → j.node = k.node) :
    (rearm now e k).Timed j := by
  unfold Engine.rearm
  split
  · exact timed.setTimer here
  · exact timed

theorem Timed.rearms {now : Instant} (timed : e.Timed j)
    (here : ∀ k ∈ l, j.id = k.id → j.node = k.node) : (l.foldl (Engine.rearm now) e).Timed j := by
  induction l generalizing e with
  | nil => exact timed
  | cons k l ih =>
    exact ih (timed.rearm (here k (by simp))) fun i hi => here i (by simp [hi])

theorem timed_rearms (now : Instant) (e : Engine) (front : e.foreground = true)
    (distinct : DistinctIds l) (hj : j ∈ l)
    (waits : j.status = .paused ∧ j.resumeAt.any (now < ·)) :
    (l.foldl (rearm now) e).Timed j := by
  induction l generalizing e with
  | nil => simp at hj
  | cons k l ih =>
    rcases List.mem_cons.mp hj with rfl | hj
    · have first : (rearm now e j).Timed j := by
        rw [rearm, if_pos waits]
        exact timed_setTimer_self front (Option.isSome_of_any waits.2)
      exact first.rearms fun i hi hid => (distinct.head_ne hi hid.symm).elim
    · refine ih _ ?_ distinct.tail hj
      rw [rearm]
      split
      · exact (setTimer_foreground e k).trans front
      · exact front

theorem attended_takeUps (now : Instant) (canPresent : Bool) (l : List Journey) (e : Engine)
    (sound : e.Sound) (loaded : e.profileLoaded = true) (front : timely → e.foreground = true)
    (hj : j ∈ l) (due : j.status = .paused ∧ j.resumeAt.any (· ≤ now)) :
    (l.foldl (takeUp now canPresent) e).Attended timely j.id := by
  induction l generalizing e with
  | nil => simp at hj
  | cons k l ih =>
    have first := calms_takeUp now canPresent e k
    have sound' := sound.changes first.changes
    have front' : timely → (takeUp now canPresent e k).foreground = true :=
      fun ht => first.foreground_eq.trans (front ht)
    rcases List.mem_cons.mp hj with rfl | hj
    · have here : (takeUp now canPresent e j).Attended timely j.id := by
        unfold takeUp
        rw [if_neg (by simp [due.1]), if_pos due.2]
        exact attended_drive sound (resolved_of_loaded loaded) .timer
      exact here.attends ((Calms.foldl (calms_takeUp now canPresent) l _).attends sound' front')
    · exact ih _ sound' (first.changes.profileLoaded_eq.trans loaded) front' hj

/-- Back in the foreground every journey that waits for a deadline has a timer, or is driven as it
is due. -/
theorem timed_entersForeground (sound : e.Sound) (loaded : e.profileLoaded = true)
    (hk : k ∈ (e.onLifecycle .entersForeground).store.active) (paused : k.status = .paused)
    (deadline : k.resumeAt.isSome)
    (free : (e.onLifecycle .entersForeground).isFlying k.id = false) :
    (e.onLifecycle .entersForeground).Timed k := by
  let front : Engine := { e with foreground := true }
  let rearmed : Engine := e.store.active.foldl (rearm e.now) front
  have first : Calms front rearmed := calms_rearms e.now e.store.active front fun _ hj => hj
  have second : Calms rearmed rearmed.onResumeDue := calms_onResumeDue rearmed
  have third : Calms rearmed.onResumeDue (e.onLifecycle .entersForeground) :=
    onLifecycle_entersForeground e ▸ Calms.foldl calms_checkGoal _ _
  have sound₁ : front.Sound := ⟨sound.distinct, sound.alive⟩
  have sound₂ := sound₁.changes first.changes
  have sound₃ := sound₂.changes second.changes
  have front₂ : rearmed.foreground = true := first.foreground_eq
  have front₃ : rearmed.onResumeDue.foreground = true := second.foreground_eq.trans front₂
  have hs : rearmed.store = e.store := rearms_store e.now e.store.active front
  have hn : rearmed.now = e.now := first.changes.now_eq
  have attends : Attends True front (e.onLifecycle .entersForeground) :=
    Calms.attends ((first.trans second).trans third) sound₁ fun _ => rfl
  rcases attends k hk free with ⟨j, hj, remains, -, -⟩ | tended
  · have attended : rearmed.onResumeDue.Attended True j.id := by
      obtain ⟨d, hd⟩ := Option.isSome_iff_exists.mp (remains.resumeAt ▸ deadline)
      have waits := remains.status.symm.trans paused
      by_cases due : d ≤ e.now
      · rw [onResumeDue_eq]
        exact attended_takeUps rearmed.now rearmed.canPresent rearmed.store.active rearmed sound₂
          (first.changes.profileLoaded_eq.trans loaded) (fun _ => front₂) (hs ▸ hj)
          ⟨waits, by simpa [hd, hn] using due⟩
      · have later : e.now < d := Int.not_le.mp due
        have timed : rearmed.Timed j :=
          timed_rearms e.now front rfl sound.distinct hj ⟨waits, by simp [hd, later]⟩
        refine Attended.attends (fun i hi hid _ => ?_) (second.attends sound₂ fun _ => front₂)
        obtain rfl := sound.distinct.eq_of_id (hs ▸ hi) hj hid
        exact ⟨waits, fun _ _ => timed⟩
    exact (attended.attends (third.attends sound₃ fun _ => front₃) k hk remains.id
      (remains.id ▸ free)).timed trivial deadline
  · exact tended.timed trivial deadline

/-! ## Messages -/

/-- In the foreground each journey that waits for a deadline and has no step has a timer, or the
report of one of its timers is among the messages that wait. -/
def Kept (late : List Message) (e : Engine) : Prop :=
  e.foreground = true → ∀ k ∈ e.store.active, k.status = .paused → k.resumeAt.isSome →
    e.isFlying k.id = false → e.Timed k ∨ .report (.timer k.id k.node) ∈ late

theorem Kept.attends (kept : e.Kept late) (front : e.foreground = true) (h : Attends True e e') :
    e'.Kept late := by
  intro _ k hk paused deadline free
  rcases h k hk free with ⟨j, hj, remains, free', timed⟩ | tended
  · rw [remains.id, remains.node]
    exact (kept front j hj (remains.status.symm.trans paused) (remains.resumeAt ▸ deadline)
      free').imp_left (timed trivial)
  · exact .inl (tended.timed trivial deadline)

theorem kept_of_attended (h : ∀ id, e.Attended True id) : e.Kept late :=
  fun _ k hk _ deadline free => .inl ((h k.id k hk rfl free).timed trivial deadline)

/-- Handling a message keeps the deadlines, also when it is the report of a timer. -/
theorem Kept.handle (kept : e.Kept (m :: late)) (hears : e.Hears m)
    (loaded : e.profileLoaded = true)
    (ordered : m.signal? = some .becameActive → e.foreground = true) :
    (e.handle m).Kept late := by
  intro front k hk paused deadline free
  have sound := hears.sound
  have foreground := hears.foreground
  rw [front] at foreground
  rcases hs : m.signal? with _ | signal
  · have here : e.foreground = true := by simpa [hs] using foreground.symm
    have attends : Attends True e (e.handle m) := hears.attends fun _ => ⟨here, hs⟩
    rcases kept.attends here attends front k hk paused deadline free with timed | waiting
    · exact .inl timed
    · rcases List.mem_cons.mp waiting with rfl | waiting
      · exact .inl (timed_onTimer sound loaded here hk paused deadline free)
      · exact .inr waiting
  · obtain rfl : m = .command (.lifecycle signal) := by
      unfold Message.signal? at hs
      split at hs
      · exact congrArg (Message.command ∘ Command.lifecycle) (Option.some.inj hs)
      · cases hs
    cases signal with
    | enteredBackground => simp [Message.signal?, Lifecycle.isFront] at foreground
    | entersForeground => exact .inl (timed_entersForeground sound loaded hk paused deadline free)
    | becameActive =>
      have here : e.foreground = true := ordered hs
      have attends : Attends True e (e.onLifecycle .becameActive) :=
        Calms.attends (calms_becameActive here) sound fun _ => here
      rcases kept.attends here attends front k hk paused deadline free with timed | waiting
      · exact .inl timed
      · exact .inr ((List.mem_cons.mp waiting).resolve_left nofun)

end Engine

end Engagement
