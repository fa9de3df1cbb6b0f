import Engagement.Proofs.Engine.Handling

/-! # Admissions

A journey starts only when it is admitted. The admissions of a message are listed with the store
that decided on each, and account for every id that is given.
-/

namespace Engagement

/-- A journey that was admitted, and the store at that time. -/
structure Admission where
  journey : Journey
  store : Store

namespace Engine

variable {e e' e'' : Engine} {l l' : List Admission} {j : Journey}

/-- The admission to a campaign, unless it is refused. -/
def admission (e : Engine) (campaign : Campaign) (user : String) (origin : Option Origin) :
    List Admission :=
  match e.refusal? campaign user with
  | none => [⟨e.newcomer campaign user origin, e.store⟩]
  | some _ => []

/-- The admissions to campaigns that an event triggers, one after the other. -/
def admissionsAlong (event : HostEvent) :
    Engine → List (Campaign × Option Envelope) → List Admission
  | _, [] => []
  | e, (campaign, some condition) :: rest =>
    (e.checkTrigger campaign.id condition event.occurrence.distinctId event.occurrence.properties
      (some event.origin)).admissionsAlong event rest
  | e, (campaign, none) :: rest =>
    e.admission campaign event.occurrence.distinctId (some event.origin) ++
      (e.enter campaign event.occurrence.distinctId (some event.origin)).1.admissionsAlong event
        rest

/-- The admissions while a message is handled. -/
def admissions (e : Engine) : Message → List Admission
  | .command (.start campaign user origin) =>
    match campaign.validate with
    | .ok () => { e with
        campaigns := e.campaigns.insert campaign.id campaign }.admission campaign user origin
    | .error _ => []
  | .command (.event event) =>
    let e := e.recheck event.occurrence.distinctId (.event event.occurrence.name)
    e.admissionsAlong event (e.chosen (triggeredBy event.occurrence.name))
  | .report (.trigger task campaign user origin holds) =>
    match (e.dropTask task).campaigns.get? campaign with
    | some campaign => if holds then (e.dropTask task).admission campaign user origin else []
    | none => []
  | _ => []

/-- Changes with the admissions among them. -/
inductive Traces (e : Engine) : List Admission → Engine → Prop
  | refl : Traces e [] e
  | quiet {e' e'' : Engine} {l : List Admission} (traces : Traces e l e') (h : Quiet e' e'') :
    Traces e l e''
  | start {e' e'' : Engine} {l : List Admission} {j : Journey} (traces : Traces e l e')
      (h : Start e' j e'') : Traces e (l ++ [⟨j, e'.store⟩]) e''

namespace Traces

theorem quiets (traces : Traces e l e') (h : Quiets e' e'') : Traces e l e'' := by
  induction h with
  | refl => exact traces
  | tail _ h ih => exact ih.quiet h

theorem trans (traces : Traces e l e') (traces' : Traces e' l' e'') : Traces e (l ++ l') e'' := by
  induction traces' with
  | refl => rwa [List.append_nil]
  | quiet _ h ih => exact ih.quiet h
  | start _ h ih =>
    rw [← List.append_assoc]
    exact ih.start h

theorem changes (traces : Traces e l e') : Changes e e' := by
  induction traces with
  | refl => exact .refl
  | quiet _ h ih => exact ih.tail (.quiet h)
  | start _ h ih => exact ih.tail (.start h)

/-- Each id that is given is that of an admission, in order. -/
theorem ids_eq (traces : Traces e l e') : e'.issued = e.issued + l.length ∧
    l.map (·.journey.id) = (List.range' e.issued l.length).map e.ids := by
  induction traces with
  | refl => exact ⟨rfl, rfl⟩
  | quiet _ h ih => exact ⟨h.issued_eq.trans ih.1, ih.2⟩
  | @start e' _ l j traces h ih =>
    refine ⟨by rw [h.issued_eq, ih.1]; simp [Nat.add_assoc], ?_⟩
    rw [List.map_append, ih.2, List.map_singleton, h.id_eq, traces.changes.ids_eq, ih.1,
      List.length_append, List.length_singleton, List.range'_concat]
    simp

/-- A journey that is admitted starts at some point in between, from the store that decided. -/
theorem exists_start (traces : Traces e l e') {a : Admission} (ha : a ∈ l) :
    ∃ e₁ e₂, Changes e e₁ ∧ Start e₁ a.journey e₂ ∧ Changes e₂ e' ∧ a.store = e₁.store := by
  induction traces with
  | refl => cases ha
  | quiet _ h ih =>
    obtain ⟨e₁, e₂, first, start, rest, store⟩ := ih ha
    exact ⟨e₁, e₂, first, start, rest.tail (.quiet h), store⟩
  | @start e₁ e₂ l j traces h ih =>
    rcases List.mem_append.mp ha with ha | ha
    · obtain ⟨e₃, e₄, first, start, rest, store⟩ := ih ha
      exact ⟨e₃, e₄, first, start, rest.tail (.start h), store⟩
    · obtain rfl := List.mem_singleton.mp ha
      exact ⟨e₁, e₂, traces.changes, h, .refl, rfl⟩

end Traces

/-! ## Handling -/

theorem traces_enter {key user : String} {campaign : Campaign} {origin : Option Origin}
    (known : (key, campaign) ∈ e.campaigns) :
    Traces e (e.admission campaign user origin) (e.enter campaign user origin).1 := by
  unfold admission enter
  split
  · rename_i admitted
    rw [admitted]
    dsimp only
    split
    · rename_i store fault refused
      exact Traces.refl.start (.fail known admitted rfl refused)
    · rename_i store saved
      exact (Traces.refl.start (.enter known admitted rfl saved)).quiets (quiets_drive _ _ _)
  · rename_i reason refused
    rw [refused]
    exact Traces.refl.quiet (.aside (.note e rfl))

theorem traces_along (event : HostEvent) (rest : List (Campaign × Option Envelope)) (e : Engine)
    (known : ∀ c ∈ rest, ∃ key, (key, c.1) ∈ e.campaigns) :
    Traces e (e.admissionsAlong event rest) (rest.foldl (fun e (campaign, condition) =>
      match condition with
      | some condition =>
        e.checkTrigger campaign.id condition event.occurrence.distinctId
          event.occurrence.properties (some event.origin)
      | none => (e.enter campaign event.occurrence.distinctId (some event.origin)).1) e) := by
  induction rest generalizing e with
  | nil => exact .refl
  | cons c rest ih =>
    obtain ⟨campaign, condition⟩ := c
    obtain ⟨key, hkey⟩ := known (campaign, condition) (by simp)
    have later : ∀ {e' : Engine}, e'.campaigns = e.campaigns →
        ∀ c ∈ rest, ∃ key, (key, c.1) ∈ e'.campaigns :=
      fun he c hc => he ▸ known c (by simp [hc])
    rw [List.foldl_cons]
    cases condition with
    | some condition =>
      have hs := Traces.refl.quiet (.aside (.spawn e (.trigger campaign.id condition
        event.occurrence.distinctId event.occurrence.properties (some event.origin) e.now)))
      exact hs.trans (ih _ (later rfl))
    | none =>
      have hs : Traces e (e.admission campaign event.occurrence.distinctId (some event.origin)) _ :=
        traces_enter hkey
      exact hs.trans (ih _ (later hs.changes.campaigns_eq))

theorem traces_onStart (e : Engine) (campaign : Campaign) (user : String)
    (origin : Option Origin) : Traces (e.takeIn (.command (.start campaign user origin)))
      (e.admissions (.command (.start campaign user origin)))
      (e.onStart campaign user origin).1 := by
  rcases hv : campaign.validate with _ | _
  · simp only [admissions, onStart, takeIn, hv]
    exact .refl
  · simp only [admissions, onStart, takeIn, hv]
    exact traces_enter (List.mem_cons_self ..)

theorem traces_onEvent (e : Engine) (event : HostEvent) :
    Traces e (e.admissions (.command (.event event))) (e.onEvent event) := by
  have hr := Traces.refl.quiets (quiets_recheck e event.occurrence.distinctId
    (.event event.occurrence.name))
  exact hr.trans (traces_along event _ _ fun c hc => (mem_chosen hc).1)

theorem traces_onTrigger (e : Engine) (task : Nat) (campaign user : String)
    (origin : Option Origin) (holds : Bool) :
    Traces e (e.admissions (.report (.trigger task campaign user origin holds)))
      ((e.dropTask task).onTrigger campaign user origin holds) := by
  have hd : Traces e [] (e.dropTask task) := Traces.refl.quiet (.aside (.dropTask e task))
  rcases hc : (e.dropTask task).campaigns.get? campaign with _ | c
  · simp only [admissions, onTrigger, hc]
    exact hd
  · cases holds
    · simpa only [admissions, onTrigger, hc, Bool.false_eq_true, if_false] using hd
    · obtain ⟨⟨key, d⟩, hm, rfl⟩ := Option.map_eq_some_iff.mp hc
      simp only [admissions, onTrigger, hc, if_true]
      exact hd.trans (traces_enter (List.mem_of_find?_eq_some hm))

/-- Handling a message other than the first is to take it in and then to change, with the
admissions that are listed for it. -/
theorem traces_handle (sound : e.Sound) {m : Message} (h : m ≠ .command .boot) :
    Traces (e.takeIn m) (e.admissions m) (e.handle m) := by
  by_cases quiet : m.mayStart = false
  · have hn : e.admissions m = [] := by
      unfold admissions
      split <;> first | rfl | cases quiet
    rw [hn]
    exact Traces.refl.quiets (quiets_handle sound h quiet)
  · match m with
    | .command (.start campaign user origin) =>
      exact (traces_onStart e campaign user origin).quiet (.aside (.answer _ _))
    | .command (.event event) => exact traces_onEvent e event
    | .report (.trigger task campaign user origin holds) =>
      exact traces_onTrigger e task campaign user origin holds
    | .command .boot | .command .segmentsChanged | .command .refreshProfile
    | .command (.contentInvalidated _) | .command .resumeDue | .command (.lifecycle _)
    | .report (.profile ..) | .report (.grace _) | .report (.timer ..) | .report (.step ..)
    | .report (.goal ..) => exact (quiet rfl).elim

theorem changes_handle (sound : e.Sound) {m : Message} (h : m ≠ .command .boot) :
    Changes (e.takeIn m) (e.handle m) :=
  (traces_handle sound h).changes

end Engine

end Engagement
