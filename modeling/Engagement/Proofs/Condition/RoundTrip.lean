import Engagement.Condition.Codec
import Engagement.Proofs.Condition.Validity
import Engagement.Proofs.Json.Records

/-! # Conditions read back

An expression is decoded as deep as it was encoded, so whatever is written reads as it was.
-/

namespace Engagement

open Json (Slots)

theorem FeatureField.decode?_name (field : FeatureField) :
    decode? (.string field.name) = some field := by
  cases field <;> rfl

theorem Operator.decode?_name (operator : Operator) :
    decode? (.string operator.name) = some operator := by
  cases operator <;> rfl

namespace Expr

/-- Windows are less than 2⁶⁴ seconds. -/
def InRange (e : Expr) : Prop := ∀ sub, Within sub e → ∀ w ∈ sub.window?, w < twoTo 64

theorem inRange_iff {e : Expr} :
    e.InRange ↔ (∀ w ∈ e.window?, w < twoTo 64) ∧ ∀ arg ∈ e.parts, arg.InRange :=
  forall_within_iff

variable {depth : Nat}

theorem encodeAll_eq (es : List Expr) : encodeAll es = es.map encode := by
  induction es with
  | nil => rfl
  | cons e es ih => rw [encodeAll, ih, List.map_cons]

theorem depth_lt_tagged {op name : String} {value : Json} {fields : Json.Fields}
    (distinct : Json.Fields.Distinct (("op", .string op) :: fields))
    (mem : (name, value) ∈ fields) : value.depth < (tagged op fields).depth :=
  Json.depth_lt_record distinct (List.mem_cons_of_mem _ mem)

theorem depth_encode_part {e arg : Expr} (mem : arg ∈ e.parts) :
    arg.encode.depth < e.encode.depth := by
  have listed {op : String} {args : List Expr} (mem : arg ∈ args) :
      arg.encode.depth < (tagged op [("args", .array (encodeAll args))]).depth := by
    have item : arg.encode ∈ encodeAll args := encodeAll_eq args ▸ List.mem_map_of_mem mem
    have outer : (Json.array (encodeAll args)).depth <
        (tagged op [("args", .array (encodeAll args))]).depth :=
      depth_lt_tagged (by simp) (.head _)
    exact Nat.lt_trans (Nat.lt_succ_of_le (Json.depth_le_of_mem_items item)) outer
  cases e with
  | compare operator left right =>
    have distinct : Json.Fields.Distinct [("op", .string "compare"),
      ("operator", .string operator.name), ("left", left.encode), ("right", right.encode)] := by
      simp
    rcases List.mem_pair.mp mem with rfl | rfl
    · exact depth_lt_tagged distinct (.tail _ (.head _))
    · exact depth_lt_tagged distinct (.tail _ (.tail _ (.head _)))
  | and args => exact listed mem
  | or args => exact listed mem
  | not arg =>
    obtain rfl := List.mem_singleton.mp mem
    exact depth_lt_tagged (by simp) (.head _)
  | _ => cases mem

theorem windowed_decodes (op name : String) (window : Option Nat)
    (inRange : ∀ w ∈ window, w < twoTo 64) :
    ∃ rest, (windowed op name window).tagged? "op" = some (op, rest) ∧
      ∀ build, decodeWindowed? build rest = some (build name window) := by
  obtain ⟨rest, slots, he, hs, found⟩ :=
    Json.record_union? "op" op [("name", .string name), ("within_secs", Json.ofOption .nat window)]
      ["name", "within_secs"] (by simp)
  refine ⟨rest, he, fun build => ?_⟩
  simp [decodeWindowed?, hs, found, Slots.required, Slots.nullable, Slots.withDefault,
    Json.slotOf, Json.asString?, Json.asOption?_word64 inRange]

theorem listed_decodes (op : String) (args : List Expr)
    (parts : ∀ arg ∈ args, decodeWithin? depth arg.encode = some arg) :
    ∃ rest slots,
      (tagged op [("args", .array (encodeAll args))]).tagged? "op" = some (op, rest) ∧
      rest.slots? ["args"] = some slots ∧
      slots.required "args" (Json.asList? (decodeWithin? depth)) = some args := by
  obtain ⟨rest, slots, he, hs, found⟩ :=
    Json.record_union? "op" op [("args", .array (encodeAll args))] ["args"] (by simp)
  have reads := Json.asList?_map parts
  rw [← encodeAll_eq] at reads
  exact ⟨rest, slots, he, hs, Slots.required_of (found _ (.head _)) reads⟩

/-- An expression is decoded if its parts are. -/
theorem decodeWithin?_succ {e : Expr} (inRange : ∀ w ∈ e.window?, w < twoTo 64)
    (parts : ∀ arg ∈ e.parts, decodeWithin? depth arg.encode = some arg) :
    decodeWithin? (depth + 1) e.encode = some e := by
  cases e with
  | literal value =>
    obtain ⟨rest, slots, he, hs, found⟩ :=
      Json.record_union? "op" "literal" [("value", value)] ["value"] (by simp)
    simp [encode, tagged, decodeWithin?, he, hs, found, Slots.required, Json.slotOf]
  | userProperty key =>
    obtain ⟨rest, slots, he, hs, found⟩ :=
      Json.record_union? "op" "user_property" [("key", .string key)] ["key"] (by simp)
    simp [encode, tagged, decodeWithin?, he, hs, found, Slots.required, Json.slotOf, Json.asString?]
  | eventCount name window =>
    obtain ⟨rest, he, reads⟩ := windowed_decodes "event_count" name window inRange
    simp [encode, decodeWithin?, he, reads]
  | eventLastTime name window =>
    obtain ⟨rest, he, reads⟩ := windowed_decodes "event_last_time" name window inRange
    simp [encode, decodeWithin?, he, reads]
  | eventOccurred name window =>
    obtain ⟨rest, he, reads⟩ := windowed_decodes "event_occurred" name window inRange
    simp [encode, decodeWithin?, he, reads]
  | inSegment segment =>
    obtain ⟨rest, slots, he, hs, found⟩ :=
      Json.record_union? "op" "in_segment" [("segment_id", .string segment)] ["segment_id"]
        (by simp)
    simp [encode, tagged, decodeWithin?, he, hs, found, Slots.required, Json.slotOf, Json.asString?]
  | feature id entity field =>
    obtain ⟨rest, slots, he, hs, found⟩ :=
      Json.record_union? "op" "feature" [("feature_id", .string id),
        ("entity_id", Json.ofOption .string entity), ("field", .string field.name)]
        ["feature_id", "entity_id", "field"] (by simp)
    simp [encode, tagged, decodeWithin?, he, hs, found, Slots.required, Slots.nullable,
      Slots.withDefault, Json.slotOf, Json.asString?, Json.asOption?_string,
      FeatureField.decode?_name]
  | now =>
    obtain ⟨rest, he, unit⟩ := Json.record_unit? "op" "now" now
    simp [encode, tagged, decodeWithin?, he, unit]
  | compare operator left right =>
    obtain ⟨rest, slots, he, hs, found⟩ :=
      Json.record_union? "op" "compare" [("operator", .string operator.name),
        ("left", left.encode), ("right", right.encode)] ["operator", "left", "right"] (by simp)
    have readsLeft := parts left (by simp [Expr.parts])
    have readsRight := parts right (by simp [Expr.parts])
    simp [encode, tagged, decodeWithin?, he, hs, found, Slots.required, Json.slotOf,
      Operator.decode?_name, readsLeft, readsRight]
  | and args =>
    obtain ⟨rest, slots, he, hs, reads⟩ := listed_decodes "and" args parts
    simp [encode, decodeWithin?, he, hs, reads]
  | or args =>
    obtain ⟨rest, slots, he, hs, reads⟩ := listed_decodes "or" args parts
    simp [encode, decodeWithin?, he, hs, reads]
  | not arg =>
    obtain ⟨rest, slots, he, hs, found⟩ :=
      Json.record_union? "op" "not" [("arg", arg.encode)] ["arg"] (by simp)
    have reads := parts arg (by simp [Expr.parts])
    simp [encode, tagged, decodeWithin?, he, hs, found, Slots.required, Json.slotOf, reads]
  | unsupported =>
    obtain ⟨rest, he, unit⟩ := Json.record_unit? "op" "unsupported" unsupported
    simp [encode, tagged, decodeWithin?, he, unit]

theorem decodeWithin?_encode {e : Expr} (inRange : e.InRange) (deep : e.encode.depth < depth) :
    decodeWithin? depth e.encode = some e := by
  induction depth generalizing e with
  | zero => cases deep
  | succ depth ih =>
    obtain ⟨window, below⟩ := inRange_iff.mp inRange
    refine decodeWithin?_succ window fun arg mem => ih (below arg mem) ?_
    have := depth_encode_part mem
    omega

theorem decode?_encode {e : Expr} (inRange : e.InRange) : decode? e.encode = some e :=
  decodeWithin?_encode inRange (Nat.lt_succ_self _)

/-! ## Decoding -/

theorem exists_of_decodeWindowed? {build : String → Option Nat → Expr} {rest : Json} {e : Expr}
    (h : decodeWindowed? build rest = some e) :
    ∃ name window, e = build name window ∧ ∀ w ∈ window, w < twoTo 64 := by
  simp only [decodeWindowed?, Option.bind_eq_bind, Option.bind_eq_some_iff] at h
  obtain ⟨slots, -, name, -, window, hw, ⟨⟩⟩ := h
  exact ⟨name, window, rfl, Json.yields_word64.nullable hw⟩

theorem yields_decodeWithin? (depth : Nat) : Json.Yields (decodeWithin? depth) InRange := by
  induction depth with
  | zero => intro j e h; cases h
  | succ depth ih =>
    intro j e h
    simp only [decodeWithin?, Option.bind_eq_bind, Option.bind_eq_some_iff] at h
    obtain ⟨⟨op, rest⟩, -, h⟩ := h
    rw [inRange_iff]
    split at h
    · simp only [Option.bind_eq_some_iff] at h
      obtain ⟨_, -, _, -, ⟨⟩⟩ := h
      simp [window?, parts]
    · simp only [Option.bind_eq_some_iff] at h
      obtain ⟨_, -, _, -, ⟨⟩⟩ := h
      simp [window?, parts]
    · obtain ⟨_, _, rfl, inRange⟩ := exists_of_decodeWindowed? h
      exact ⟨inRange, by simp [parts]⟩
    · obtain ⟨_, _, rfl, inRange⟩ := exists_of_decodeWindowed? h
      exact ⟨inRange, by simp [parts]⟩
    · obtain ⟨_, _, rfl, inRange⟩ := exists_of_decodeWindowed? h
      exact ⟨inRange, by simp [parts]⟩
    · simp only [Option.bind_eq_some_iff] at h
      obtain ⟨_, -, _, -, ⟨⟩⟩ := h
      simp [window?, parts]
    · simp only [Option.bind_eq_some_iff] at h
      obtain ⟨_, -, _, -, _, -, _, -, ⟨⟩⟩ := h
      simp [window?, parts]
    · obtain rfl := Json.eq_of_unit? h
      simp [window?, parts]
    · simp only [Option.bind_eq_some_iff] at h
      obtain ⟨_, -, _, -, left, hl, right, hr, ⟨⟩⟩ := h
      have below := And.intro (ih.required hl) (ih.required hr)
      simpa [window?, parts] using below
    · simp only [Option.bind_eq_some_iff] at h
      obtain ⟨_, -, args, ha, ⟨⟩⟩ := h
      exact ⟨by simp [window?], ih.list.required ha⟩
    · simp only [Option.bind_eq_some_iff] at h
      obtain ⟨_, -, args, ha, ⟨⟩⟩ := h
      exact ⟨by simp [window?], ih.list.required ha⟩
    · simp only [Option.bind_eq_some_iff] at h
      obtain ⟨_, -, arg, ha, ⟨⟩⟩ := h
      simpa [window?, parts] using ih.required ha
    · obtain rfl := Json.eq_of_unit? h
      simp [window?, parts]

theorem yields_decode? : Json.Yields decode? InRange :=
  fun j e h => yields_decodeWithin? _ j e h

end Expr

namespace Envelope

structure InRange (env : Envelope) : Prop where
  version : env.version < twoTo 32
  expr : env.expr.InRange

theorem decode?_encode {env : Envelope} (inRange : env.InRange) :
    decode? env.encode = some env := by
  have held : env.encode.Holds [("version", .nat env.version), ("expr", env.expr.encode)] :=
    Json.record_holds (by simp)
  obtain ⟨slots, hs, found⟩ := held.slots? ["version", "expr"]
  simp [decode?, hs, found, Slots.required, Json.slotOf, Json.asWord32?_nat inRange.version,
    Expr.decode?_encode inRange.expr]

theorem yields_decode? : Json.Yields decode? InRange := by
  intro j env h
  simp only [decode?, Option.bind_eq_bind, Option.bind_eq_some_iff] at h
  obtain ⟨_, -, version, hv, expr, he, ⟨⟩⟩ := h
  exact ⟨Json.yields_word32.required hv, Expr.yields_decode?.required he⟩

end Envelope

end Engagement
