import Engagement.Campaign.Codec
import Engagement.Proofs.Condition.RoundTrip

/-! # Campaigns read back

The parts of a campaign in range are read as they were written, down to the conditions in its nodes.
Only what is in range is read.
-/

namespace Engagement

open Json (Slots)

theorem Envelope.encode_ne_null (env : Envelope) : env.encode ≠ .null := by
  simp [encode, Json.record]

theorem Envelope.asOption?_encode {condition : Option Envelope}
    (inRange : ∀ env ∈ condition, env.InRange) :
    Json.asOption? decode? (Json.ofOption encode condition) = some condition :=
  Json.asOption?_ofOption fun env he => ⟨env.encode_ne_null, decode?_encode (inRange env he)⟩

/-! ## Triggers -/

namespace Trigger

def InRange : Trigger → Prop
  | .event _ condition => ∀ env ∈ condition, env.InRange
  | .segment condition => condition.InRange

theorem decode?_encode {trigger : Trigger} (inRange : trigger.InRange) :
    decode? trigger.encode = some trigger := by
  cases trigger with
  | event name condition =>
    obtain ⟨rest, slots, he, hs, found⟩ :=
      Json.record_union? "type" "event" [("event_name", .string name),
        ("condition", Json.ofOption Envelope.encode condition)] ["event_name", "condition"]
        (by simp)
    simp [encode, typed, decode?, he, hs, found, Slots.required, Slots.nullable, Slots.withDefault,
      Json.slotOf, Json.asString?, Envelope.asOption?_encode inRange]
  | segment condition =>
    obtain ⟨rest, slots, he, hs, found⟩ :=
      Json.record_union? "type" "segment" [("condition", condition.encode)] ["condition"] (by simp)
    simp [encode, typed, decode?, he, hs, found, Slots.required, Json.slotOf,
      Envelope.decode?_encode inRange]

theorem yields_decode? : Json.Yields decode? InRange := by
  intro j trigger h
  simp only [decode?, Option.bind_eq_bind, Option.bind_eq_some_iff] at h
  obtain ⟨⟨tag, rest⟩, -, h⟩ := h
  split at h
  · simp only [Option.bind_eq_some_iff] at h
    obtain ⟨_, -, _, -, condition, hc, ⟨⟩⟩ := h
    exact Envelope.yields_decode?.nullable hc
  · simp only [Option.bind_eq_some_iff] at h
    obtain ⟨_, -, condition, hc, ⟨⟩⟩ := h
    exact Envelope.yields_decode?.required hc
  · cases h

end Trigger

/-! ## Actions -/

namespace WaitPath

structure InRange (path : WaitPath) : Prop where
  condition : ∀ env ∈ path.condition, env.InRange
  limit : ∀ seconds ∈ path.limit, seconds < twoTo 64

theorem decode?_encode {path : WaitPath} (inRange : path.InRange) :
    decode? path.encode = some path := by
  have held : path.encode.Holds _ := Json.record_holds (by simp)
  obtain ⟨slots, hs, found⟩ := held.slots? ["condition", "max_time_secs", "next"]
  simp [decode?, hs, found, Slots.required, Slots.nullable, Slots.withDefault, Json.slotOf,
    Json.asString?, Envelope.asOption?_encode inRange.condition,
    Json.asOption?_word64 inRange.limit]

theorem yields_decode? : Json.Yields decode? InRange := by
  intro j path h
  simp only [decode?, Option.bind_eq_bind, Option.bind_eq_some_iff] at h
  obtain ⟨_, -, condition, hc, limit, hl, _, -, ⟨⟩⟩ := h
  exact ⟨Envelope.yields_decode?.nullable hc, Json.yields_word64.nullable hl⟩

end WaitPath

theorem Arm.decode?_encode (arm : Arm) : decode? arm.encode = some arm := by
  have held : arm.encode.Holds _ := Json.record_holds (by simp)
  obtain ⟨slots, hs, found⟩ := held.slots? ["weight", "next"]
  simp [decode?, hs, found, Slots.required, Json.slotOf, Json.asString?, Json.float,
    Json.asBinary64?]

namespace Action

def InRange : Action → Prop
  | .branch condition => condition.InRange
  | .waitUntil paths => ∀ path ∈ paths, path.InRange
  | _ => True

/-- An action is read from its fields, in any order. -/
theorem decode?_of_holds {action : Action} (inRange : action.InRange) {j : Json}
    (held : j.Holds action.fields) : decode? j = some action := by
  cases action with
  | branch condition =>
    obtain ⟨rest, slots, he, hs, found⟩ := Json.Holds.union? held ["condition"]
    simp [decode?, he, hs, found, Slots.required, Json.slotOf, Envelope.decode?_encode inRange]
  | showContent flow =>
    obtain ⟨rest, slots, he, hs, found⟩ := Json.Holds.union? held ["flow_id"]
    simp [decode?, he, hs, found, Slots.required, Json.slotOf, Json.asString?]
  | waitUntil paths =>
    obtain ⟨rest, slots, he, hs, found⟩ := Json.Holds.union? held ["paths"]
    have reads := Json.asList?_map fun path hp => WaitPath.decode?_encode (inRange path hp)
    simp [decode?, he, hs, found, Slots.required, Json.slotOf, reads]
  | randomBranch arms =>
    obtain ⟨rest, slots, he, hs, found⟩ := Json.Holds.union? held ["branches"]
    have reads := Json.asList?_map (l := arms) fun arm _ => arm.decode?_encode
    simp [decode?, he, hs, found, Slots.required, Json.slotOf, reads]
  | callHost name payload =>
    obtain ⟨rest, slots, he, hs, found⟩ := Json.Holds.union? held ["name", "payload"]
    simp [decode?, he, hs, found, Slots.required, Slots.withDefault, Json.slotOf, Json.asString?]
  | setAttribute key value =>
    obtain ⟨rest, slots, he, hs, found⟩ := Json.Holds.union? held ["key", "value"]
    simp [decode?, he, hs, found, Slots.required, Json.slotOf, Json.asString?]
  | sendEvent name properties =>
    obtain ⟨rest, slots, he, hs, found⟩ := Json.Holds.union? held ["name", "properties"]
    simp [decode?, he, hs, found, Slots.required, Slots.withDefault, Json.slotOf, Json.asString?,
      Json.asFields?]
  | exit reason =>
    obtain ⟨rest, slots, he, hs, found⟩ := Json.Holds.union? held ["reason"]
    simp [decode?, he, hs, found, Slots.nullable, Slots.withDefault, Json.slotOf,
      Json.asOption?_string]

theorem yields_decode? : Json.Yields decode? InRange := by
  intro j action h
  simp only [decode?, Option.bind_eq_bind, Option.bind_eq_some_iff] at h
  obtain ⟨⟨tag, rest⟩, -, h⟩ := h
  split at h
  · simp only [Option.bind_eq_some_iff] at h
    obtain ⟨_, -, condition, hc, ⟨⟩⟩ := h
    exact Envelope.yields_decode?.required hc
  · simp only [Option.bind_eq_some_iff] at h
    obtain ⟨_, -, _, -, ⟨⟩⟩ := h
    trivial
  · simp only [Option.bind_eq_some_iff] at h
    obtain ⟨_, -, paths, hp, ⟨⟩⟩ := h
    exact WaitPath.yields_decode?.list.required hp
  · simp only [Option.bind_eq_some_iff] at h
    obtain ⟨_, -, _, -, ⟨⟩⟩ := h
    trivial
  · simp only [Option.bind_eq_some_iff] at h
    obtain ⟨_, -, _, -, _, -, ⟨⟩⟩ := h
    trivial
  · simp only [Option.bind_eq_some_iff] at h
    obtain ⟨_, -, _, -, _, -, ⟨⟩⟩ := h
    trivial
  · simp only [Option.bind_eq_some_iff] at h
    obtain ⟨_, -, _, -, _, -, ⟨⟩⟩ := h
    trivial
  · simp only [Option.bind_eq_some_iff] at h
    obtain ⟨_, -, _, -, ⟨⟩⟩ := h
    trivial
  · cases h

end Action

/-! ## Nodes -/

namespace Node

/-- The fields of a node, its own ones first. -/
def fields (node : Node) : Json.Fields :=
  ("id", .string node.id) :: ("next", encodeTexts node.next) :: node.action.fields

theorem distinct_fields (node : Node) : node.fields.Distinct := by
  cases ha : node.action <;> simp [fields, ha, Action.fields, typed]

/-- Without its own fields a node leaves its action. -/
theorem action_holds {node : Node} {l : Json.Fields} (perm : l.Perm node.fields) :
    (Json.object (l.filter fun f => f.1 != "id" && f.1 != "next")).Holds node.action.fields := by
  have distinct : Json.Fields.Distinct node.action.fields := node.distinct_fields.of_cons.of_cons
  have own : node.fields.filter (fun f => f.1 != "id" && f.1 != "next") = node.action.fields := by
    cases ha : node.action <;> simp [fields, ha, Action.fields, typed]
  exact ⟨distinct, _, rfl, own ▸ perm.filter _⟩

theorem decode?_encode {node : Node} (inRange : node.action.InRange) :
    decode? node.encode = some node := by
  have held : node.encode.Holds node.fields := Json.record_holds node.distinct_fields
  obtain ⟨slots, hs, found⟩ := held.slots? ["id", "next"]
  obtain ⟨-, l, he, perm⟩ := held
  have texts : Json.asList? Json.asString? (encodeTexts node.next) = some node.next :=
    Json.asList?_map fun _ _ => rfl
  rw [he] at hs ⊢
  simp [decode?, hs, found, fields, Slots.required, Slots.withDefault, Json.slotOf, Json.asString?,
    texts, Action.decode?_of_holds inRange (action_holds perm)]

theorem yields_decode? : Json.Yields decode? fun node => node.action.InRange := by
  intro j node h
  unfold decode? at h
  split at h
  · simp only [Option.bind_eq_bind, Option.bind_eq_some_iff] at h
    obtain ⟨_, -, _, -, _, -, action, ha, ⟨⟩⟩ := h
    exact Action.yields_decode? _ _ ha
  · cases h

end Node

/-! ## Goals and policies -/

theorem GoalKind.decode?_name (kind : GoalKind) : decode? (.string kind.name) = some kind := by
  cases kind <;> rfl

theorem ExitPolicy.decode?_name (policy : ExitPolicy) :
    decode? (.string policy.name) = some policy := by
  cases policy <;> rfl

theorem Anchor.decode?_name (anchor : Anchor) : decode? (.string anchor.name) = some anchor := by
  cases anchor <;> rfl

namespace Goal

structure InRange (goal : Goal) : Prop where
  expression : ∀ env ∈ goal.expression, env.InRange
  window : ∀ seconds ∈ goal.window, -(twoTo 63 : Int) ≤ seconds ∧ seconds < twoTo 63

theorem encode_ne_null (goal : Goal) : goal.encode ≠ .null := by
  simp [encode, Json.record]

theorem decode?_encode {goal : Goal} (inRange : goal.InRange) :
    decode? goal.encode = some goal := by
  have held : goal.encode.Holds _ := Json.record_holds (by simp)
  obtain ⟨slots, hs, found⟩ :=
    held.slots? ["kind", "event_name", "segment_id", "expression", "window_secs"]
  have window : Json.asOption? Json.asInteger? (Json.ofOption .int goal.window) =
      some goal.window :=
    Json.asOption?_ofOption fun seconds hw => ⟨by simp [Json.int],
      Json.asInteger?_int (inRange.window seconds hw).1 (inRange.window seconds hw).2⟩
  simp [decode?, hs, found, Slots.required, Slots.nullable, Slots.withDefault, Json.slotOf,
    GoalKind.decode?_name, Json.asOption?_string, Envelope.asOption?_encode inRange.expression,
    window]

theorem asOption?_encode {goal : Option Goal} (inRange : ∀ g ∈ goal, g.InRange) :
    Json.asOption? decode? (Json.ofOption encode goal) = some goal :=
  Json.asOption?_ofOption fun g hg => ⟨g.encode_ne_null, decode?_encode (inRange g hg)⟩

theorem yields_decode? : Json.Yields decode? InRange := by
  intro j goal h
  simp only [decode?, Option.bind_eq_bind, Option.bind_eq_some_iff] at h
  obtain ⟨_, -, _, -, _, -, _, -, expression, he, window, hw, ⟨⟩⟩ := h
  exact ⟨Envelope.yields_decode?.nullable he, Json.yields_integer.nullable hw⟩

end Goal

namespace Reentry

def InRange : Reentry → Prop
  | .cooldown seconds => seconds < twoTo 64
  | _ => True

theorem decode?_encode {reentry : Reentry} (inRange : reentry.InRange) :
    decode? reentry.encode = some reentry := by
  cases reentry with
  | once =>
    obtain ⟨rest, he, unit⟩ := Json.record_unit? "type" "once" once
    simp [encode, typed, decode?, he, unit]
  | everyRematch =>
    obtain ⟨rest, he, unit⟩ := Json.record_unit? "type" "every_rematch" everyRematch
    simp [encode, typed, decode?, he, unit]
  | cooldown seconds =>
    obtain ⟨rest, slots, he, hs, found⟩ :=
      Json.record_union? "type" "cooldown" [("seconds", .nat seconds)] ["seconds"] (by simp)
    simp [encode, typed, decode?, he, hs, found, Slots.required, Json.slotOf,
      Json.asWord64?_nat inRange]
  | concurrent =>
    obtain ⟨rest, he, unit⟩ := Json.record_unit? "type" "concurrent" concurrent
    simp [encode, typed, decode?, he, unit]

theorem yields_decode? : Json.Yields decode? InRange := by
  intro j reentry h
  simp only [decode?, Option.bind_eq_bind, Option.bind_eq_some_iff] at h
  obtain ⟨⟨tag, rest⟩, -, h⟩ := h
  split at h
  · obtain rfl := Json.eq_of_unit? h
    trivial
  · obtain rfl := Json.eq_of_unit? h
    trivial
  · simp only [Option.bind_eq_some_iff] at h
    obtain ⟨_, -, seconds, hs, ⟨⟩⟩ := h
    exact Json.yields_word64.required hs
  · obtain rfl := Json.eq_of_unit? h
    trivial
  · cases h

end Reentry

/-! ## Campaigns -/

namespace Campaign

structure InRange (campaign : Campaign) : Prop where
  version : campaign.version < twoTo 32
  trigger : campaign.trigger.InRange
  nodes : ∀ node ∈ campaign.nodes, node.action.InRange
  goal : ∀ goal ∈ campaign.goal, goal.InRange
  reentry : campaign.reentry.InRange

theorem decode?_encode {campaign : Campaign} (inRange : campaign.InRange) :
    decode? campaign.encode = some campaign := by
  have held : campaign.encode.Holds _ := Json.record_holds (by simp)
  obtain ⟨slots, hs, found⟩ := held.all_slots?
  simp only [List.forall_mem_cons] at found
  obtain ⟨id, name, version, trigger, entry, nodes, goal, policy, anchor, reentry, -⟩ := found
  have listed := Json.asList?_map fun node hn => Node.decode?_encode (inRange.nodes node hn)
  refine Json.bind_of_some hs ?_
  refine Json.bind_of_some (Slots.required_of id rfl) ?_
  refine Json.bind_of_some (Slots.required_of name rfl) ?_
  refine Json.bind_of_some (Slots.required_of version (Json.asWord32?_nat inRange.version)) ?_
  refine Json.bind_of_some (Slots.required_of trigger (Trigger.decode?_encode inRange.trigger)) ?_
  refine Json.bind_of_some (Slots.required_of entry rfl) ?_
  refine Json.bind_of_some (Slots.required_of nodes listed) ?_
  refine Json.bind_of_some (Slots.nullable_of goal (Goal.asOption?_encode inRange.goal)) ?_
  refine Json.bind_of_some (Slots.withDefault_of policy campaign.exitPolicy.decode?_name) ?_
  refine Json.bind_of_some (Slots.withDefault_of anchor campaign.anchor.decode?_name) ?_
  exact Json.bind_of_some (Slots.withDefault_of reentry (Reentry.decode?_encode inRange.reentry))
    rfl

theorem yields_decode? : Json.Yields decode? InRange := by
  intro j campaign h
  iterate 3 obtain ⟨_, -, h⟩ := Option.bind_eq_some_iff.mp h
  obtain ⟨version, hv, h⟩ := Option.bind_eq_some_iff.mp h
  obtain ⟨trigger, ht, h⟩ := Option.bind_eq_some_iff.mp h
  obtain ⟨_, -, h⟩ := Option.bind_eq_some_iff.mp h
  obtain ⟨nodes, hn, h⟩ := Option.bind_eq_some_iff.mp h
  obtain ⟨goal, hg, h⟩ := Option.bind_eq_some_iff.mp h
  iterate 2 obtain ⟨_, -, h⟩ := Option.bind_eq_some_iff.mp h
  obtain ⟨reentry, hr, ⟨⟩⟩ := Option.bind_eq_some_iff.mp h
  exact ⟨Json.yields_word32.required hv, Trigger.yields_decode?.required ht,
    Node.yields_decode?.list.required hn, Goal.yields_decode?.nullable hg,
    Reentry.yields_decode?.withDefault hr trivial⟩

end Campaign

end Engagement
