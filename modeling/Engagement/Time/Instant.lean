/-! # Instants and spans

An instant is a second since 1970-01-01T00:00:00Z and nanoseconds within it. A leap second is
written as the second before it with a thousand million nanoseconds more. Instants lie between the
years -262143 and 262142; arithmetic that leaves this range has no result.
-/

namespace Engagement

namespace Instant

/-- The first second of the year -262143. -/
def firstSecond : Int := -8334601228800

/-- The last second of the year 262142. -/
def lastSecond : Int := 8210266876799

/-- Nanoseconds in a second. -/
def nanos : Nat := 1000000000

end Instant

structure Instant where
  second : Int
  nano : Nat
  firstSecond_le : Instant.firstSecond ≤ second
  le_lastSecond : second ≤ Instant.lastSecond
  nano_lt : nano < 2 * Instant.nanos
  deriving DecidableEq

namespace Instant

variable (t u : Instant)

def make? (second : Int) (nano : Nat) : Option Instant :=
  if h : firstSecond ≤ second ∧ second ≤ lastSecond ∧ nano < 2 * nanos then
    some ⟨second, nano, h.1, h.2.1, h.2.2⟩
  else
    none

def epoch : Instant := ⟨0, 0, by decide, by decide, by decide⟩

instance : Inhabited Instant := ⟨epoch⟩

/-- The place on a line on which every second has room for a leap second. -/
def position : Int := 2 * nanos * t.second + t.nano

instance : LE Instant := ⟨fun t u => t.position ≤ u.position⟩
instance : LT Instant := ⟨fun t u => t.position < u.position⟩

instance : DecidableLE Instant := fun t u => inferInstanceAs (Decidable (t.position ≤ u.position))
instance : DecidableLT Instant := fun t u => inferInstanceAs (Decidable (t.position < u.position))

instance : Min Instant := minOfLe
instance : Max Instant := maxOfLe

def isLeap : Bool := nanos ≤ t.nano

/-- Moves an instant by seconds and nanoseconds of one sign, `nano` less than a second. A leap
second is left forwards onto the second it repeats and backwards onto the one after it; a fraction
that does not reach its end stays within it. -/
def shift? (seconds nano : Int) : Option Instant :=
  let forwards := 0 < seconds ∨ (0 < nano ∧ 2 * nanos ≤ t.nano + nano)
  if t.isLeap ∧ ¬ forwards ∧ ¬ seconds < 0 then
    make? t.second (t.nano + nano).toNat
  else
    let second := if t.isLeap ∧ ¬ forwards then t.second + 1 else t.second
    let fraction : Int := (if t.isLeap then t.nano - nanos else t.nano) + nano
    make? (second + seconds + fraction / nanos) (fraction % nanos).toNat

/-- Moves an instant by signed milliseconds. -/
def shiftMillis? (ms : Int) : Option Instant :=
  t.shift? (ms.tdiv 1000) (ms.tmod 1000 * 1000000)

/-- Nanoseconds from `u` to `t`. A leap second counts when it lies between them by the time of
day. -/
def nanosSince : Int :=
  let ofDay (s : Int) := s % 86400
  let leap : Int :=
    if ofDay u.second < ofDay t.second ∧ u.isLeap then 1
    else if ofDay t.second < ofDay u.second ∧ t.isLeap then -1
    else 0
  (t.second - u.second + leap) * nanos + t.nano - u.nano

end Instant

namespace Span

/-- The longest span in seconds that can be added at all. -/
def limit : Nat := 9223372036854775

/-- The longest span a campaign may configure: one hundred years of 365 days. -/
def configurable : Nat := 100 * 365 * 86400

def ofSeconds? (seconds : Nat) : Option Int :=
  if seconds ≤ limit then some seconds else none

/-- The instant `seconds` later, if there is one. -/
def after? (t : Instant) (seconds : Nat) : Option Instant := do
  t.shift? (← ofSeconds? seconds) 0

/-- The instant `seconds` earlier, if there is one. -/
def before? (t : Instant) (seconds : Nat) : Option Instant := do
  t.shift? (-(← ofSeconds? seconds)) 0

end Span

end Engagement
