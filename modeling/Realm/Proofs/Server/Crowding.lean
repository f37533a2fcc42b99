import Mathlib.Data.List.Basic
import Realm.Server.Basic

/-!
# How far the limit on connections is exceeded

The door compares the registered connections with the limit, but the handlers of clients that it let
in before may be behind with registering theirs. Main statement: with the clients that are still
expected there are never more connections than the limit and the greatest number of handlers that
were behind when a client was let in, and every such number is reached. So the limit is kept by
the schedules in which each handler begins before the next client is let in, and not by others.
-/

namespace Realm

namespace Connections

theorem size_register (t : Connections) (address : SocketAddress) (capacity : Nat) :
    (t.register address capacity).2.size = t.size + 1 := by
  simp [register, size]

theorem size_remove_le (t : Connections) (id : ConnectionId) : (t.remove id).2.size ≤ t.size := by
  unfold remove
  cases t.get? id with
  | none => exact Nat.le_refl _
  | some k => exact List.length_erase_le

end Connections

namespace Admission

def fresh (limit : Nat) : Admission := ⟨limit, .empty, []⟩

def crowd (a : Admission) : Nat := a.connections.size + a.expected.length

def admits (a : Admission) : AdmissionEvent → Bool
  | .arrival _ => a.connections.size < a.limit
  | _ => false

/-- The greatest number of handlers that are behind when a client is let in. -/
def backlog (capacity : Nat) (a : Admission) : List AdmissionEvent → Nat
  | [] => 0
  | e :: rest =>
    max (if a.admits e then a.expected.length else 0) ((a.step capacity e).backlog capacity rest)

variable {capacity : Nat} {a : Admission}

/-! ## No more than that -/

theorem limit_step (capacity : Nat) (a : Admission) (e : AdmissionEvent) :
    (a.step capacity e).limit = a.limit := by
  cases e with
  | arrival address =>
      simp only [step, arrive]
      split <;> rfl
  | beginning n =>
      simp only [step, begin]
      cases a.expected[n]? <;> rfl
  | departure id => rfl

/-- A handler that begins takes its client from the expected ones to the registered ones. -/
theorem begin_of_lt (capacity : Nat) {n : Nat} (hn : n < a.expected.length) :
    (a.step capacity (.beginning n)).connections.size = a.connections.size + 1 ∧
      (a.step capacity (.beginning n)).expected = a.expected.eraseIdx n := by
  have hfound : a.expected[n]? = some a.expected[n] := List.getElem?_eq_getElem hn
  simp [step, begin, hfound, Connections.size_register]

theorem begin_of_le {n : Nat} (hn : a.expected.length ≤ n) :
    a.step capacity (.beginning n) = a := by
  have hnone : a.expected[n]? = none := List.getElem?_eq_none hn
  simp [step, begin, hnone]

/-- Only a client that is let in adds to the crowd, and it finds a place that is not yet registered. -/
theorem crowd_step_le (capacity : Nat) (a : Admission) (e : AdmissionEvent) :
    (a.step capacity e).crowd ≤
      max a.crowd (if a.admits e then a.limit + a.expected.length else 0) := by
  cases e with
  | arrival address =>
      by_cases hroom : a.connections.size < a.limit
      · simp only [step, arrive, admits, crowd, hroom, if_true, decide_true, List.length_append,
          List.length_singleton]
        omega
      · simp [step, arrive, admits, hroom]
  | beginning n =>
      by_cases hn : n < a.expected.length
      · obtain ⟨hsize, hexpected⟩ := begin_of_lt capacity hn
        have hlength := List.length_eraseIdx_of_lt hn
        simp only [crowd, hsize, hexpected, hlength]
        omega
      · rw [begin_of_le (by omega)]
        omega
  | departure id =>
      have hsize := a.connections.size_remove_le id
      simp only [step, crowd]
      omega

theorem limit_run (capacity : Nat) (a : Admission) (events : List AdmissionEvent) :
    (a.run capacity events).limit = a.limit := by
  induction events generalizing a with
  | nil => rfl
  | cons e rest ih => exact (ih (a.step capacity e)).trans (limit_step capacity a e)

theorem crowd_run_le (capacity : Nat) (a : Admission) (events : List AdmissionEvent) :
    (a.run capacity events).crowd ≤ max a.crowd (a.limit + a.backlog capacity events) := by
  induction events generalizing a with
  | nil => exact Nat.le_max_left _ _
  | cons e rest ih =>
      have hfirst := a.crowd_step_le capacity e
      have hrest := ih (a.step capacity e)
      have hrun : a.run capacity (e :: rest) = (a.step capacity e).run capacity rest := rfl
      rw [limit_step] at hrest
      rw [hrun, backlog]
      by_cases hadmits : a.admits e = true
      · rw [if_pos hadmits] at hfirst ⊢
        omega
      · rw [if_neg hadmits] at hfirst ⊢
        omega

/-! ## As many as that -/

theorem run_append (capacity : Nat) (a : Admission) (events rest : List AdmissionEvent) :
    a.run capacity (events ++ rest) = (a.run capacity events).run capacity rest :=
  List.foldl_append

theorem backlog_append (capacity : Nat) (a : Admission) (events rest : List AdmissionEvent) :
    a.backlog capacity (events ++ rest) =
      max (a.backlog capacity events) ((a.run capacity events).backlog capacity rest) := by
  induction events generalizing a with
  | nil => exact (Nat.zero_max _).symm
  | cons e events ih =>
      have hrun : a.run capacity (e :: events) = (a.step capacity e).run capacity events := rfl
      rw [List.cons_append, backlog, backlog, ih, hrun, Nat.max_assoc]

/-- Clients that come one after the other while there is a place are all let in. -/
theorem run_arrivals (capacity : Nat) (address : SocketAddress) (n : Nat)
    (hroom : a.connections.size < a.limit) :
    let a' := a.run capacity (.replicate n (.arrival address))
    a'.connections = a.connections ∧ a'.expected.length = a.expected.length + n ∧
      (0 < n → a.backlog capacity (.replicate n (.arrival address)) + 1 =
        a.expected.length + n) := by
  induction n generalizing a with
  | zero => exact ⟨rfl, rfl, fun hn => absurd hn (Nat.lt_irrefl 0)⟩
  | succ n ih =>
      have hstep : a.step capacity (.arrival address) =
          { a with expected := a.expected ++ [address] } := if_pos hroom
      have hadmits : a.admits (.arrival address) = true := decide_eq_true hroom
      obtain ⟨hconnections, hlength, hbacklog⟩ :=
        ih (a := { a with expected := a.expected ++ [address] }) hroom
      have hrun : a.run capacity (.replicate (n + 1) (.arrival address)) =
          ({ a with expected := a.expected ++ [address] } : Admission).run capacity
            (.replicate n (.arrival address)) := by
        rw [List.replicate_succ, ← hstep]
        rfl
      simp only [List.length_append, List.length_singleton] at hlength hbacklog
      refine ⟨?_, ?_, fun _ => ?_⟩
      · rw [hrun, hconnections]
      · rw [hrun, hlength]
        omega
      · rw [List.replicate_succ, backlog, hstep, if_pos hadmits]
        cases n with
        | zero => simp [backlog]
        | succ n =>
            have hrest := hbacklog (Nat.succ_pos n)
            omega

/-- Expected handlers that begin one after the other register their clients. -/
theorem run_beginnings (capacity n : Nat) (hn : n ≤ a.expected.length) :
    let a' := a.run capacity (.replicate n (.beginning 0))
    a'.connections.size = a.connections.size + n ∧ a'.expected.length + n = a.expected.length ∧
      a.backlog capacity (.replicate n (.beginning 0)) = 0 := by
  induction n generalizing a with
  | zero => exact ⟨rfl, rfl, rfl⟩
  | succ n ih =>
      obtain ⟨hsize, hexpected⟩ := begin_of_lt (a := a) capacity (n := 0) (by omega)
      have hlength := List.length_eraseIdx_of_lt (l := a.expected) (i := 0) (by omega)
      obtain ⟨hsize', hlength', hbacklog'⟩ :=
        ih (a := a.step capacity (.beginning 0)) (by rw [hexpected, hlength]; omega)
      have hrun : a.run capacity (.replicate (n + 1) (.beginning 0)) =
          (a.step capacity (.beginning 0)).run capacity (.replicate n (.beginning 0)) := rfl
      rw [hexpected, hlength] at hlength'
      refine ⟨?_, ?_, ?_⟩
      · rw [hrun, hsize', hsize]
        omega
      · rw [hrun]
        omega
      · rw [List.replicate_succ, backlog, hbacklog']
        rfl

/-- Some clients come at a time, and then their handlers begin. -/
def wave (address : SocketAddress) (n : Nat) : List AdmissionEvent :=
  .replicate n (.arrival address) ++ .replicate n (.beginning 0)

/-- All clients of a wave get in if the first finds a place: the last is `n` handlers ahead. -/
theorem run_wave (capacity : Nat) (address : SocketAddress) (n : Nat)
    (hroom : a.connections.size < a.limit) (hnobody : a.expected = []) :
    let a' := a.run capacity (wave address (n + 1))
    a'.connections.size = a.connections.size + (n + 1) ∧ a'.expected = [] ∧
      a.backlog capacity (wave address (n + 1)) = n := by
  obtain ⟨hconnections, hlength, hbacklog⟩ :=
    run_arrivals (a := a) capacity address (n + 1) hroom
  have hbehind := hbacklog (Nat.succ_pos n)
  rw [hnobody, List.length_nil] at hlength hbehind
  obtain ⟨hsize, hleft, hquiet⟩ := run_beginnings (n := n + 1)
    (a := a.run capacity (.replicate (n + 1) (.arrival address))) capacity (by omega)
  refine ⟨?_, ?_, ?_⟩
  · rw [wave, run_append, hsize, hconnections]
  · rw [wave, run_append]
    exact List.eq_nil_of_length_eq_zero (by omega)
  · rw [wave, backlog_append, hquiet]
    omega

/-- Clients that come one at a time fill the places, and no handler is behind. -/
theorem run_singles (capacity : Nat) (address : SocketAddress) (n : Nat)
    (hroom : a.connections.size + n ≤ a.limit) (hnobody : a.expected = []) :
    let events := (List.replicate n (wave address 1)).flatten
    (a.run capacity events).connections.size = a.connections.size + n ∧
      (a.run capacity events).expected = [] ∧ a.backlog capacity events = 0 := by
  induction n generalizing a with
  | zero => exact ⟨rfl, hnobody, rfl⟩
  | succ n ih =>
      obtain ⟨hsize, hexpected, hbacklog⟩ :=
        run_wave (a := a) capacity address 0 (by omega) hnobody
      rw [Nat.zero_add] at hsize hexpected hbacklog
      have hlimit := limit_run capacity a (wave address 1)
      obtain ⟨hsize', hexpected', hbacklog'⟩ :=
        ih (a := a.run capacity (wave address 1)) (by omega) hexpected
      simp only [List.replicate_succ, List.flatten_cons, run_append, backlog_append]
      refine ⟨?_, hexpected', ?_⟩
      · rw [hsize', hsize]
        omega
      · rw [hbacklog, hbacklog', Nat.max_self]

/-! ## The limit -/

structure Crowds (limit capacity : Nat) : Prop where
  /-- The handlers that are behind when a client is let in are all that is above the limit. -/
  bound : ∀ events, ((fresh limit).run capacity events).crowd ≤
    limit + (fresh limit).backlog capacity events
  /-- Any number of handlers can be behind, and then as many connections are above the limit. -/
  reached : 0 < limit → ∀ k, ∃ events, (fresh limit).backlog capacity events = k ∧
    ((fresh limit).run capacity events).connections.size = limit + k

/-- The connections exceed the limit by the handlers that were behind, at most and at worst. -/
theorem connections_exceed_by_backlog (limit capacity : Nat) : Crowds limit capacity where
  bound events := by
    have hcrowd := crowd_run_le capacity (fresh limit) events
    have hempty : (fresh limit).crowd = 0 := rfl
    have hlimit : (fresh limit).limit = limit := rfl
    omega
  reached hpos k := by
    let address : SocketAddress := .v4 [127, 0, 0, 1] 4000
    have hempty : (fresh limit).connections.size = 0 := rfl
    have hlimit : (fresh limit).limit = limit := rfl
    obtain ⟨hsize, hexpected, hbacklog⟩ :=
      run_singles (a := fresh limit) capacity address (limit - 1) (by omega) rfl
    generalize (List.replicate (limit - 1) (wave address 1)).flatten = events
      at hsize hexpected hbacklog
    have hlimit' := limit_run capacity (fresh limit) events
    obtain ⟨hsize', -, hbacklog'⟩ := run_wave capacity address k (by omega) hexpected
    refine ⟨events ++ wave address (k + 1), ?_, ?_⟩
    · rw [backlog_append, hbacklog, hbacklog']
      omega
    · rw [run_append, hsize', hsize]
      omega

/-- With one place, two clients get in that come before the first handler has begun. -/
theorem limit_not_kept : ¬ ∀ limit capacity events,
    ((fresh limit).run capacity events).connections.size ≤ limit := by
  intro hkept
  have htwo := hkept 1 8 [.arrival default, .arrival default, .beginning 0, .beginning 0]
  revert htwo
  decide

end Admission

end Realm
