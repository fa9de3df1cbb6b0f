import Engagement.Proofs.Engine.Conversions
import Engagement.Proofs.Session.Courses
import Engagement.Proofs.Session.Wakes

/-! # No conversion is lost

Checks of a goal report back in any order, while steps run and after other profiles have come in.
From when a journey comes in, what was fixed then stays as it was, and the conversion of the journey
is the earliest of those found, whatever the order in which they were.
-/

namespace Engagement

namespace Session

open Engine

variable {s : Session} {e : Engine} {i k : Journey} {id : JourneyId} {input : Input}

/-- The times at which a journey was found to have converted, as they come to be handled. -/
def outcomes (s : Session) (id : JourneyId) (inputs : List Input) : List Instant :=
  (s.handled inputs).filterMap (Message.metAt? id)

theorem outcomes_snoc (s : Session) (id : JourneyId) (inputs : List Input) (input : Input) :
    s.outcomes id (inputs ++ [input]) = s.outcomes id inputs ++
      (((inputs.foldl take s).handles? input).bind (Message.metAt? id)).toList := by
  rw [outcomes, handled_snoc, List.filterMap_append]
  rcases (inputs.foldl take s).handles? input with _ | message
  · rfl
  · rcases hm : message.metAt? id with _ | t <;> simp [outcomes, hm]

/-! ## From when a journey comes in -/

/-- With the last of the inputs a journey comes in: the engine has it from before, reads it when it
comes up, or starts it. -/
inductive ComesIn (e : Engine) : List Input → Journey → Prop
  | held {i : Journey} (h : i ∈ e.store.active) : ComesIn e [] i
  | loaded {inputs : List Input} {input : Input} {snapshot : Snapshot} {i : Journey}
      (boots : (course e inputs).handles? input = some (.command .boot))
      (read : (course e inputs).engine.store.backend.load.2 = .ok snapshot)
      (h : i ∈ snapshot.journeys) : ComesIn e (inputs ++ [input]) i
  | started {inputs : List Input} {input : Input} {message : Message} {a : Admission}
      (handled : (course e inputs).handles? input = some message)
      (h : a ∈ (course e inputs).engine.admissions message) :
      ComesIn e (inputs ++ [input]) a.journey

/-- A journey has come in some time ago, and has latched what has been found about it since. -/
def Latched (e : Engine) (inputs : List Input) (k : Journey) : Prop :=
  ∃ prior later i, inputs = prior ++ later ∧ ComesIn e prior i ∧
    i.Latches ((course e prior).outcomes k.id later) k

namespace Latched

theorem of_comesIn {inputs : List Input} (comes : ComesIn e inputs i) (h : i.Latches [] k) :
    Latched e inputs k :=
  ⟨inputs, [], i, (List.append_nil inputs).symm, comes, h⟩

/-- What an input has found is latched after what the ones before it had. -/
theorem snoc {inputs : List Input} (h : Latched e inputs i)
    (found : i.Latches
      (((course e inputs).handles? input).bind (Message.metAt? i.id)).toList k) :
    Latched e (inputs ++ [input]) k := by
  obtain ⟨prior, later, first, rfl, comes, latches⟩ := h
  refine ⟨prior, later ++ [input], first, List.append_assoc .., comes, ?_⟩
  have since : later.foldl take (course e prior) = course e (prior ++ later) :=
    List.foldl_append.symm
  rw [outcomes_snoc, since, found.id]
  exact latches.trans found

end Latched

theorem latched_boot {inputs : List Input} (boots :
    (course e inputs).handles? input = some (.command .boot))
    (before : ∀ j ∈ (course e inputs).engine.store.active, Latched e inputs j)
    (hk : k ∈ ((course e inputs).engine.handle (.command .boot)).store.active) :
    Latched e (inputs ++ [input]) k := by
  rcases read : (course e inputs).engine.store.backend.load.2 with fault | snapshot
  · rw [boot_active_of_error read] at hk
    exact (before k hk).snoc (by rw [boots]; exact .refl k)
  · obtain ⟨j, hj, latches⟩ := (calms_boot read).carries k hk
    obtain ⟨campaigns, installed, hg⟩ := (course e inputs).engine.greeted_eq
    rw [hg, List.map_nil, List.append_nil] at hj
    exact .of_comesIn (.loaded boots read (Store.mem_of_mem_recovered read hj).1) latches

theorem latched (sound : e.Sound) (inputs : List Input)
    (hk : k ∈ (course e inputs).engine.store.active) : Latched e inputs k := by
  induction inputs using List.reverseRecOn generalizing k with
  | nil => exact .of_comesIn (.held hk) (.refl k)
  | append_singleton inputs input ih =>
    rw [course_snoc] at hk
    rcases (course e inputs).take_cases input with ⟨unhandled, d⟩ | ⟨message, handled, he⟩
    · exact (ih (d.active ▸ hk)).snoc (by rw [unhandled]; exact .refl k)
    · rw [he] at hk
      by_cases hm : message = .command .boot
      · subst hm
        exact latched_boot handled (fun j hj => ih hj) hk
      · rcases latches_handle (sound_course sound inputs) hm hk with
          ⟨j, hj, found⟩ | ⟨a, ha, latches⟩
        · exact (ih hj).snoc (by rw [handled]; exact found)
        · exact .of_comesIn (.started handled ha) latches

/-- A journey keeps what was fixed when it came in, for as long as it is in the mirror, and its
conversion is the earlier of the one it came in with and the earliest found since, in whatever order
these were handled. -/
theorem conversion_earliest (sound : e.Sound) (inputs : List Input)
    (hk : k ∈ (course e inputs).engine.store.active) : ∃ prior later i, inputs = prior ++ later ∧
      ComesIn e prior i ∧ i.Continues k ∧
      ∀ found, found.Perm ((course e prior).outcomes k.id later) →
        k.convertedAt = (i.convertedAt.toList ++ found).min? := by
  obtain ⟨prior, later, i, hs, comes, latches⟩ := latched sound inputs hk
  refine ⟨prior, later, i, hs, comes, latches.toContinues, fun found hf => ?_⟩
  rw [latches.earliest]
  exact Instant.min?_eq_of_perm (hf.symm.append_left _)

/-- A journey whose user has left the members converts, and goes on. -/
def leaving : Campaign :=
  { Campaign.pausing with goal := some ⟨.segmentLeave, none, some "members", none, none⟩ }

def afterwards : Instant := ⟨60, 500000000, by decide, by decide, by decide⟩

/-- The goal is checked at the start and some time afterwards, and the later check reports first. -/
def checksTwice : List Input :=
  [.boot, .move .deliver, .move (.send (.start leaving "ann" none)), .move .deliver,
    .move (.host (.new afterwards "ann" .empty)), .move (.send (.event tap)), .move .deliver,
    .move (.work 3), .move .deliver, .move (.work 1), .move .deliver]

theorem earlier_check_prevails :
    let start := inMemory .empty .epoch
    let started := checksTwice.take 4
    (course start started).outcomes ⟨0⟩ (checksTwice.drop 4) = [afterwards, .epoch] ∧
      (course start checksTwice).engine.store.active.map (·.convertedAt) = [some .epoch] ∧
      ∀ k ∈ (course start checksTwice).engine.store.active, ∃ prior later i,
        checksTwice = prior ++ later ∧ ComesIn start prior i ∧ i.Continues k ∧
        let found := (course start prior).outcomes k.id later
        k.convertedAt = (i.convertedAt.toList ++ found).min? := by
  intro start started
  refine ⟨by decide +kernel, by decide +kernel, fun k hk => ?_⟩
  obtain ⟨prior, later, i, hs, comes, continues, earliest⟩ :=
    conversion_earliest (sound_new ..) checksTwice hk
  exact ⟨prior, later, i, hs, comes, continues, earliest _ (.refl _)⟩

end Session

end Engagement
