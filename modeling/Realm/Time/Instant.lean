import Realm.Time.Duration

/-!
# Instants

Timers run on whole milliseconds, so an instant is the number of milliseconds since the clock
started.
-/

namespace Realm

/-- Milliseconds since the clock started. -/
abbrev Instant := Nat

/-- The milliseconds of a span, a started one counting as whole. -/
def Duration.millis (d : Duration) : Nat :=
  (d.nanos + (Duration.nanosPerMilli - 1)) / Duration.nanosPerMilli

end Realm
