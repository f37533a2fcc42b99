/-!
# Shutdown

A flag that is raised once and wakes everybody who waits for it.
-/

namespace Realm

/-- The flag, with the number of those who wait for it and of those it has woken. -/
structure Shutdown where
  initiated : Bool
  waiting : Nat
  woken : Nat
  deriving DecidableEq, Repr

namespace Shutdown

def new : Shutdown := ⟨false, 0, 0⟩

/-- Raises the flag. Doing so again is harmless. -/
def initiate (s : Shutdown) : Shutdown := ⟨true, 0, s.woken + s.waiting⟩

/-- Somebody starts to wait, and is woken at once if the flag is up. -/
def join (s : Shutdown) : Shutdown :=
  if s.initiated then { s with woken := s.woken + 1 } else { s with waiting := s.waiting + 1 }

end Shutdown

end Realm
