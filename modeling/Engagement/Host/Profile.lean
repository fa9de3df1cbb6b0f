import Engagement.Campaign.Codec
import Engagement.Condition.Evaluation

/-! # Profiles

What the host knows about its user. Campaigns stay raw; each is decoded and validated on its own.
-/

namespace Engagement

namespace Access

def encode (access : Access) : Json :=
  Json.record [("allowed", .bool access.allowed), ("unlimited", .bool access.unlimited),
    ("balance", .int access.balance)]

def decode? (j : Json) : Option Access := do
  let slots ← j.slots? ["allowed", "unlimited", "balance"]
  some ⟨← slots.required "allowed" Json.asBool?, ← slots.required "unlimited" Json.asBool?,
    ← slots.required "balance" Json.asInteger?⟩

end Access

structure Profile where
  campaigns : List Json
  segments : List String
  features : List (String × Access)
  userProperties : Json.Fields

namespace Profile

def empty : Profile := ⟨[], [], [], []⟩

def parseCampaigns (profile : Profile) : List Campaign × List Misconfiguration :=
  Campaign.ofRawList profile.campaigns

def encode (profile : Profile) : Json :=
  Json.record [("campaigns", .array profile.campaigns), ("segments", encodeTexts profile.segments),
    ("features", Json.record (profile.features.map fun (id, access) => (id, access.encode))),
    ("user_properties", .object profile.userProperties)]

def decodeFeatures? (j : Json) : Option (List (String × Access)) := do
  (← j.asFields?).mapM fun (id, value) => do some (id, ← Access.decode? value)

def decode? (j : Json) : Option Profile := do
  let slots ← j.slots? ["campaigns", "segments", "features", "user_properties"]
  some ⟨← slots.withDefault "campaigns" Json.asItems? [],
    ← slots.withDefault "segments" (Json.asList? Json.asString?) [],
    ← slots.withDefault "features" decodeFeatures? [],
    ← slots.withDefault "user_properties" Json.asFields? []⟩

end Profile

end Engagement
