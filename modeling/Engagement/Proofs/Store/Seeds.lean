import Mathlib.Data.List.Induction
import Engagement.Proofs.Store.Recovery
import Engagement.Proofs.Store.RoundTrip

/-! # What is stored of a journey's seed

A journey that is saved and loaded keeps its context, and with it the seed of its random branches. Of
several journeys with the same id in storage the last one that has not ended is taken up, and that
one changes only with the journey held.
-/

namespace Engagement

/-- `k` is what may be read of `j`: it has the id, the status and the context. -/
structure Journey.Recalls (j k : Journey) : Prop where
  id : k.id = j.id
  status : k.status = j.status
  context : k.context = j.context

namespace Journey

open Json (Slots)

variable {j k : Journey} {value : Json} {slots : Slots}

theorem Recalls.refl (j : Journey) : j.Recalls j := ⟨rfl, rfl, rfl⟩

theorem Recalls.randomSeed (h : j.Recalls k) : k.randomSeed = j.randomSeed := by
  unfold Journey.randomSeed
  rw [h.context, h.id]

theorem slots_encode (j : Journey) : ∃ slots, j.encode.slots? fieldNames = some slots ∧
    slots.required "id" JourneyId.decode? = some j.id ∧
    slots.required "status" Status.decode? = some j.status ∧
    slots.withDefault "context" Json.asFields? [] = some j.context := by
  have held : j.encode.Holds _ := Json.record_holds (by simp)
  obtain ⟨slots, hs, found⟩ := held.all_slots?
  simp only [List.forall_mem_cons] at found
  obtain ⟨id, -, -, -, status, -, -, -, -, -, -, -, context, -⟩ := found
  exact ⟨slots, hs, Slots.required_of id j.id.decode?_encode,
    Slots.required_of status j.status.decode?_name, Slots.withDefault_of context rfl⟩

theorem slots_of_decode? (hs : value.slots? fieldNames = some slots) (h : decode? value = some k) :
    slots.required "id" JourneyId.decode? = some k.id ∧
    slots.required "status" Status.decode? = some k.status ∧
    slots.withDefault "context" Json.asFields? [] = some k.context := by
  obtain ⟨read, hr, h⟩ := Option.bind_eq_some_iff.mp h
  obtain rfl : slots = read := Option.some.inj (hs.symm.trans hr)
  obtain ⟨_, id, h⟩ := Option.bind_eq_some_iff.mp h
  iterate 3 obtain ⟨_, -, h⟩ := Option.bind_eq_some_iff.mp h
  obtain ⟨_, status, h⟩ := Option.bind_eq_some_iff.mp h
  iterate 7 obtain ⟨_, -, h⟩ := Option.bind_eq_some_iff.mp h
  obtain ⟨_, context, h⟩ := Option.bind_eq_some_iff.mp h
  iterate 5 obtain ⟨_, -, h⟩ := Option.bind_eq_some_iff.mp h
  cases h
  exact ⟨id, status, context⟩

/-- Whatever the numbers and times of a journey, it is recalled if what was written can be read. -/
theorem recalls_of_decode? (h : decode? j.encode = some k) : j.Recalls k := by
  obtain ⟨slots, hs, id, status, context⟩ := j.slots_encode
  obtain ⟨id', status', context'⟩ := slots_of_decode? hs h
  exact ⟨Option.some.inj (id'.symm.trans id), Option.some.inj (status'.symm.trans status),
    Option.some.inj (context'.symm.trans context)⟩

end Journey

theorem forall₂_recalls_of_mapM {l again : List Journey}
    (h : (l.map Journey.encode).mapM Journey.decode? = some again) :
    List.Forall₂ Journey.Recalls l again := by
  induction l generalizing again with
  | nil =>
    obtain rfl : [] = again := Option.some.inj h
    exact .nil
  | cons j l ih =>
    simp only [List.map_cons, List.mapM_cons, Option.bind_eq_bind, Option.bind_eq_some_iff] at h
    obtain ⟨k, hk, rest, hl, ⟨⟩⟩ := h
    exact .cons (Journey.recalls_of_decode? hk) (ih hl)

/-- The journeys of a snapshot are recalled in their order. -/
theorem Snapshot.recalls_of_decode? {snapshot again : Snapshot}
    (h : decode? snapshot.encode = some again) :
    List.Forall₂ Journey.Recalls snapshot.journeys again.journeys := by
  have held : snapshot.encode.Holds _ := Json.record_holds (by simp)
  obtain ⟨slots, hs, found⟩ := held.slots? ["journeys", "ledger"]
  have journeys : slots.get "journeys" = .given (.array (snapshot.journeys.map Journey.encode)) :=
    (found "journeys" (by simp)).trans (by simp [Json.slotOf])
  obtain ⟨read, hr, h⟩ := Option.bind_eq_some_iff.mp h
  obtain rfl : slots = read := Option.some.inj (hs.symm.trans hr)
  obtain ⟨l, hl, h⟩ := Option.bind_eq_some_iff.mp h
  obtain ⟨ledger, -, h⟩ := Option.bind_eq_some_iff.mp h
  cases h
  rw [Json.Slots.withDefault, journeys] at hl
  exact forall₂_recalls_of_mapM hl

/-! ## The last journey under way -/

/-- The last journey with an id that has not ended. -/
def lastUnderWay? (id : JourneyId) : List Journey → Option Journey
  | [] => none
  | j :: rest => (lastUnderWay? id rest).or
    (if j.id = id ∧ j.isTerminal = false then some j else none)

section

variable {l again : List Journey} {j k : Journey} {id other : JourneyId}

theorem lastUnderWay?_append (id : JourneyId) (l more : List Journey) :
    lastUnderWay? id (l ++ more) = (lastUnderWay? id more).or (lastUnderWay? id l) := by
  induction l with
  | nil => simp [lastUnderWay?]
  | cons j l ih => simp only [List.cons_append, lastUnderWay?, ih, Option.or_assoc]

theorem mem_of_lastUnderWay? (found : lastUnderWay? id l = some k) :
    k ∈ l ∧ k.id = id ∧ k.isTerminal = false := by
  induction l with
  | nil => cases found
  | cons j l ih =>
    rcases Option.or_eq_some_iff.mp found with later | ⟨-, here⟩
    · exact ⟨List.mem_cons_of_mem _ (ih later).1, (ih later).2⟩
    · obtain ⟨own, hk⟩ := Option.ite_none_right_eq_some.mp here
      obtain rfl := Option.some.inj hk
      exact ⟨List.mem_cons_self, own⟩

theorem lastUnderWay?_recalls (id : JourneyId) (h : List.Forall₂ Journey.Recalls l again) :
    Option.Rel Journey.Recalls (lastUnderWay? id l) (lastUnderWay? id again) := by
  induction h with
  | nil => exact .none
  | @cons j k l again first _ ih =>
    have alike : (k.id = id ∧ k.isTerminal = false) ↔ (j.id = id ∧ j.isTerminal = false) := by
      rw [first.id, Journey.isTerminal, Journey.isTerminal, first.status]
    unfold lastUnderWay?
    simp only [alike]
    revert ih
    generalize lastUnderWay? id l = last
    generalize lastUnderWay? id again = last'
    rintro (later | _)
    · exact .some later
    · split
      · exact .some first
      · exact .none

theorem lastUnderWay?_cons_of_ne (h : j.id ≠ id) :
    lastUnderWay? id (j :: l) = lastUnderWay? id l := by
  rw [lastUnderWay?, if_neg fun here => h here.1, Option.or_none]

theorem lastUnderWay?_without_self (id : JourneyId) (l : List Journey) :
    lastUnderWay? id (without id l) = none := by
  induction l with
  | nil => rfl
  | cons j l ih =>
    by_cases here : j.id = id
    · simpa [without, here] using ih
    · have stays : without id (j :: l) = j :: without id l := by simp [without, here]
      rw [stays, lastUnderWay?_cons_of_ne here, ih]

theorem lastUnderWay?_without_of_ne (apart : id ≠ other) (l : List Journey) :
    lastUnderWay? id (without other l) = lastUnderWay? id l := by
  induction l with
  | nil => rfl
  | cons j l ih =>
    by_cases taken : j.id = other
    · have gone : without other (j :: l) = without other l := by simp [without, taken]
      rw [gone, ih, lastUnderWay?_cons_of_ne (taken ▸ apart.symm)]
    · have stays : without other (j :: l) = j :: without other l := by simp [without, taken]
      rw [stays, lastUnderWay?, lastUnderWay?, ih]

/-- Taking journeys out leaves no other one to be the last. -/
theorem lastUnderWay?_without (found : lastUnderWay? id (without other l) = some k) :
    lastUnderWay? id l = some k := by
  by_cases same : id = other
  · subst same
    rw [lastUnderWay?_without_self] at found
    cases found
  · rwa [lastUnderWay?_without_of_ne same] at found

theorem lastUnderWay?_upsert_of_ne (apart : id ≠ j.id) (l : List Journey) :
    lastUnderWay? id (upsert j l) = lastUnderWay? id l := by
  induction l with
  | nil => exact lastUnderWay?_cons_of_ne apart.symm
  | cons known l ih =>
    unfold upsert
    split
    · rename_i same
      rw [lastUnderWay?_cons_of_ne apart.symm, lastUnderWay?_cons_of_ne (same ▸ apart.symm)]
    · rw [lastUnderWay?, lastUnderWay?, ih]

/-- A journey that is put takes the place of the first with its id, so at most it is the last
itself. -/
theorem lastUnderWay?_upsert (found : lastUnderWay? id (upsert j l) = some k) :
    (k = j ∧ j.id = id) ∨ lastUnderWay? id l = some k := by
  by_cases apart : id = j.id
  · subst apart
    have put {rest : List Journey} (h : lastUnderWay? j.id (j :: rest) = some k) :
        k = j ∨ lastUnderWay? j.id rest = some k := by
      rcases Option.or_eq_some_iff.mp h with later | ⟨-, here⟩
      · exact .inr later
      · exact .inl (Option.some.inj (Option.ite_none_right_eq_some.mp here).2).symm
    induction l with
    | nil => exact .inl ⟨(put found).resolve_right nofun, rfl⟩
    | cons known l ih =>
      by_cases same : known.id = j.id
      · rw [upsert, if_pos same] at found
        refine (put found).imp (⟨·, rfl⟩) fun later => ?_
        rw [lastUnderWay?, later, Option.some_or]
      · rw [upsert, if_neg same, lastUnderWay?_cons_of_ne same] at found
        rw [lastUnderWay?_cons_of_ne same]
        exact ih found
  · exact .inr (lastUnderWay?_upsert_of_ne apart l ▸ found)

theorem lastUnderWay?_filter (id : JourneyId) (l : List Journey) :
    lastUnderWay? id (l.filter (!·.isTerminal)) = lastUnderWay? id l := by
  induction l with
  | nil => rfl
  | cons j l ih =>
    cases ended : j.isTerminal with
    | false => simp [lastUnderWay?, ended, ih]
    | true => simp [lastUnderWay?, ended, ih]

/-- Of the journeys with one id, taken up one after the other, the last is held. -/
theorem lastUnderWay?_of_mem_foldl_upsert
    (h : k ∈ (l.filter (!·.isTerminal)).foldl (fun held j => upsert j held) []) :
    lastUnderWay? k.id l = some k := by
  rw [← lastUnderWay?_filter]
  have alive : ∀ j ∈ l.filter (!·.isTerminal), j.isTerminal = false := by simp
  revert h alive
  generalize l.filter (!·.isTerminal) = taken
  intro h alive
  induction taken using List.reverseRecOn with
  | nil => cases h
  | append_singleton taken j ih =>
    have distinct := Store.foldl_upsert_distinct taken [] (by simp [DistinctIds])
    rw [List.foldl_append] at h
    rw [lastUnderWay?_append]
    rcases (mem_upsert_iff distinct).mp h with rfl | ⟨held, apart⟩
    · simp [lastUnderWay?, alive k (by simp)]
    · have earlier := ih held fun j hj => alive j (List.mem_append_left _ hj)
      rw [lastUnderWay?_cons_of_ne apart.symm, lastUnderWay?, Option.none_or, earlier]

end

/-! ## Contexts of journeys -/

/-- Each id has its context: the journeys held have it, and so does the last one in storage that has
not ended. -/
structure Store.Seeded (context : JourneyId → Json.Fields) (store : Store) : Prop where
  held : ∀ j ∈ store.active, j.context = context j.id
  stored : ∀ id k, lastUnderWay? id store.durable.journeys = some k → k.context = context id

namespace Store

variable {context : JourneyId → Json.Fields} {store after : Store} {j ended : Journey}
  {snapshot : Snapshot}

theorem Seeded.puts (seeded : store.Seeded context) (puts : store.Puts j after)
    (own : j.context = context j.id) : after.Seeded context := by
  constructor
  · intro k hk
    rcases mem_of_mem_upsert (puts.active ▸ hk) with rfl | hk
    · exact own
    · exact seeded.held k hk
  · intro id k found
    rw [puts.durable] at found
    rcases lastUnderWay?_upsert found with ⟨rfl, rfl⟩ | found
    · exact own
    · exact seeded.stored id k found

theorem Seeded.completes (seeded : store.Seeded context) (completes : store.Completes ended after)
    (terminal : ended.isTerminal = true) : after.Seeded context := by
  refine ⟨fun k hk => seeded.held k (mem_without.mp (completes.active ▸ hk)).1, fun id k found => ?_⟩
  rcases completes.durable with moved | put | same
  · rw [moved] at found
    exact seeded.stored id k (lastUnderWay?_without found)
  · rw [put] at found
    rcases lastUnderWay?_upsert found with ⟨rfl, -⟩ | earlier
    · rw [(mem_of_lastUnderWay? found).2.2] at terminal
      cases terminal
    · exact seeded.stored id k earlier
  · exact seeded.stored id k (same ▸ found)

/-- What is recovered has the contexts that storage answers with. -/
theorem seeded_recovered (held : store.backend.load.2 = .ok snapshot)
    (own : ∀ id k, lastUnderWay? id snapshot.journeys = some k → k.context = context id) :
    store.recovered.Seeded context := by
  have taken : (store.takenOver snapshot).Seeded context := by
    constructor
    · intro k hk
      exact own k.id k (lastUnderWay?_of_mem_foldl_upsert hk)
    · intro id k found
      have same : (store.takenOver snapshot).durable = snapshot := Backend.durable_load held
      exact own id k (same ▸ found)
  rw [recovered_of_load held]
  have stranded : ∀ j ∈ snapshot.journeys.filter Journey.isTerminal, j.isTerminal = true := by simp
  generalize snapshot.journeys.filter Journey.isTerminal = l at stranded
  generalize store.takenOver snapshot = loaded at taken
  induction l generalizing loaded with
  | nil => exact taken
  | cons j l ih =>
    obtain ⟨first, rest⟩ := List.forall_mem_cons.mp stranded
    exact ih rest _ (taken.completes (completes_complete loaded j) first)

end Store

end Engagement
