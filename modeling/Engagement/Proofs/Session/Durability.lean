import Engagement.Proofs.Engine.Flights
import Engagement.Proofs.Store.Consistency

/-! # What is durable between two messages

Between two messages every journey in the mirror is stored as it stands, and what storage holds
beyond the mirror has its record in the ledger, whichever writes fail.
-/

namespace Engagement

namespace Engine

variable {e e' : Engine} {snapshot : Snapshot}

theorem Happens.consistent (h : Happens e e') (consistent : e.store.Consistent []) :
    e'.store.Consistent [] := by
  cases h with
  | takeIn m => simpa using consistent
  | change sound h =>
    rcases h.store_cases with hs | ⟨j, -, puts⟩ | ⟨ended, completes⟩
    · exact hs ▸ consistent
    · exact consistent.puts sound.distinct puts
    · exact consistent.completes completes
  | drift d => exact consistent.of_eq d.active d.ledger d.durable

theorem Evolves.consistent (h : Evolves e e') (consistent : e.store.Consistent []) :
    e'.store.Consistent [] := by
  induction h with
  | refl => exact consistent
  | tail _ h ih => exact h.consistent ih

theorem BootsFrom.consistent (boots : e.BootsFrom snapshot)
    (distinct : DistinctIds snapshot.journeys) (ms : List Move) :
    (Session.after e ms).engine.store.Consistent [] := by
  obtain ⟨campaigns, installed, evolves⟩ := boots.evolves ms
  exact evolves.consistent (Store.consistent_recovered boots.held distinct)

end Engine

namespace Session

variable {e : Engine} {snapshot : Snapshot}

end Session

end Engagement
