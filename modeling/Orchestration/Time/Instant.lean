import Orchestration.Time.Calendar

/-! # Instants and spans

An instant is a second counted from 1970 and a part of it in nanoseconds.  In a leap second, which
follows the last second of a minute, the part is a whole second or more.  Only instants in the years
-262143 to 262142 can be represented, so adding a span can fail.
-/

set_option autoImplicit false

namespace Orchestration

open Time

def nanosPerSecond : Nat := 1000000000

def firstSecond : Int := (Date.mk (-262143) 1 1).toDays * 86400

def lastSecond : Int := (Date.mk 262142 12 31).toDays * 86400 + 86399

/-- A second with the nanoseconds since it began.  Only the last second of a minute can have more
than a second of them: what is beyond is a leap second. -/
structure Instant where
  second : Int
  nano : Nat
  nano_lt : nano < 2 * nanosPerSecond
  leap : nanosPerSecond ≤ nano → second % 60 = 59
  inRange : firstSecond ≤ second ∧ second ≤ lastSecond
  deriving DecidableEq

structure Span where
  seconds : Nat
  nanos : Nat
  deriving DecidableEq

namespace Span

def greatest : Span := ⟨9223372036854775, 807000000⟩

/-- A number of seconds, or the greatest span if that is shorter. -/
def ofSeconds (n : Nat) : Span :=
  if n ≤ greatest.seconds then ⟨n, 0⟩ else greatest

end Span

namespace Instant

def of? (second : Int) (nano : Nat) : Option Instant :=
  if h : nano < 2 * nanosPerSecond ∧ (nanosPerSecond ≤ nano → second % 60 = 59) then
    if h' : firstSecond ≤ second ∧ second ≤ lastSecond then some ⟨second, nano, h.1, h.2, h'⟩
    else none
  else none

def epoch : Instant :=
  ⟨0, 0, by decide, by decide, by decide⟩

def le (a b : Instant) : Bool :=
  a.second < b.second || (a.second == b.second && a.nano ≤ b.nano)

def lt (a b : Instant) : Bool :=
  a.second < b.second || (a.second == b.second && a.nano < b.nano)

/-- The instant a span later.  From a leap second the time goes on as after an ordinary one, unless
it stays inside the leap second. -/
def add? (t : Instant) (span : Span) : Option Instant :=
  let leap := nanosPerSecond ≤ t.nano
  if leap && span.seconds == 0 && t.nano + span.nanos < 2 * nanosPerSecond then
    of? t.second (t.nano + span.nanos)
  else
    let nano := (if leap then t.nano - nanosPerSecond else t.nano) + span.nanos
    of? (t.second + span.seconds + (nano / nanosPerSecond : Nat)) (nano % nanosPerSecond)

def sub? (t : Instant) (span : Span) : Option Instant :=
  let leap := nanosPerSecond ≤ t.nano
  if leap && span.seconds == 0 then of? t.second (t.nano - span.nanos)
  else
    let second : Int := (if leap then t.second + 1 else t.second) - span.seconds
    let nano := if leap then t.nano - nanosPerSecond else t.nano
    if nano < span.nanos then of? (second - 1) (nano + nanosPerSecond - span.nanos)
    else of? second (nano - span.nanos)

end Instant

end Orchestration
