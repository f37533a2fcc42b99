import Realm.Account.Authenticator

/-!
# Requests on a schedule

A list of requests, each to be made at an instant of its own. They are made in the order of their
instants, those of one instant in the order of the list, and then waited for until every outcome is
known.
-/

namespace Realm

structure ScheduledRequest where
  time : Instant
  username : String
  password : String
  deriving DecidableEq, Repr

namespace Authenticator

/-- Makes requests that are ordered by time, and lets all else happen meanwhile. -/
def submitEach (a : Authenticator) (now : Instant) :
    List ScheduledRequest → Instant × Authenticator
  | [] => (now, a)
  | r :: rest =>
    let a := if r.time = now then a else Clocked.elapse now r.time (a.settle now)
    (a.submit r.time r.username r.password).2.submitEach r.time rest

def patience (a : Authenticator) : Nat := a.limits.consume.millis + a.limits.fetch.millis

/-- Makes the requests of a schedule and waits for all of them. They are given back in the order of
the schedule. -/
def runSchedule (a : Authenticator) (schedule : List ScheduledRequest) :
    List AuthRequest × Authenticator :=
  let ordered := schedule.zipIdx.mergeSort fun r s => r.1.time ≤ s.1.time
  let (now, a) := a.submitEach 0 (ordered.map (·.1))
  let (_, a) := Clocked.runUntil isIdle now (now + a.patience) (a.settle now)
  let concluded := (ordered.map (·.2)).zip a.requests
  ((concluded.mergeSort fun r s => r.1 ≤ s.1).map (·.2), a)

end Authenticator

end Realm
