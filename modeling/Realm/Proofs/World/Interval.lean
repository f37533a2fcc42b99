import Mathlib.Data.List.DropRight
import Realm.World.Policy

/-!
# Counting time

An interval adds up the time of its calls until that reaches its rate. Main statement: although the
sum that it keeps has a greatest value, it fires just when the time since it last fired has reached
the rate, and otherwise keeps that time exactly. Time beyond the rate is dropped, so after a firing
an interval goes on like a new one.
-/

namespace Realm

namespace Duration

/-- Spans together, in nanoseconds; there is no greatest value for this. -/
def total (spans : List Duration) : Nat := spans.foldr (fun d sum => d.nanos + sum) 0

@[simp] theorem total_nil : total [] = 0 := rfl

@[simp] theorem total_cons (d : Duration) (ds : List Duration) :
    total (d :: ds) = d.nanos + total ds := rfl

@[simp] theorem total_append (ds ds' : List Duration) :
    total (ds ++ ds') = total ds + total ds' := by
  induction ds with
  | nil => simp
  | cons d ds ih => rw [List.cons_append, total_cons, total_cons, ih, Nat.add_assoc]

theorem nanos_greatest : greatest.nanos = UInt64.size * nanosPerSecond - 1 := rfl

/-- The spans up to the greatest one are those whose seconds fit 64 bits. -/
theorem le_greatest_iff {d : Duration} : d ≤ greatest ↔ d.seconds < UInt64.size := by
  have hpos : 0 < UInt64.size * nanosPerSecond := by decide
  change d.nanos ≤ greatest.nanos ↔ _
  rw [nanos_greatest, seconds, Nat.div_lt_iff_lt_mul (by decide)]
  omega

theorem min_greatest_of_lt {whole nanos : Nat} (hnanos : nanos < nanosPerSecond)
    (h : whole < UInt64.size) :
    min (whole * nanosPerSecond + nanos) greatest.nanos = whole * nanosPerSecond + nanos := by
  have hle := Nat.mul_le_mul_right nanosPerSecond (Nat.succ_le_of_lt h)
  rw [Nat.succ_mul] at hle
  rw [nanos_greatest]
  omega

theorem min_greatest_of_le {whole nanos : Nat} (h : UInt64.size ≤ whole) :
    min (whole * nanosPerSecond + nanos) greatest.nanos = greatest.nanos := by
  have hle := Nat.mul_le_mul_right nanosPerSecond h
  rw [nanos_greatest]
  omega

/-- Seconds and nanoseconds are added apart, a second is carried over, and the sum ends at the
greatest span. -/
theorem saturatingAdd_eq_carried (a b : Duration) : a.saturatingAdd b =
    if a.seconds + b.seconds + (a.subsecond + b.subsecond) / nanosPerSecond < UInt64.size then
      ofParts (a.seconds + b.seconds + (a.subsecond + b.subsecond) / nanosPerSecond)
        ((a.subsecond + b.subsecond) % nanosPerSecond)
    else greatest := by
  have hsum : a.nanos + b.nanos =
      (a.seconds + b.seconds + (a.subsecond + b.subsecond) / nanosPerSecond) * nanosPerSecond +
        (a.subsecond + b.subsecond) % nanosPerSecond := by
    simp only [seconds, subsecond, nanosPerSecond]
    omega
  have hnanos : (a.subsecond + b.subsecond) % nanosPerSecond < nanosPerSecond :=
    Nat.mod_lt _ (by decide)
  rw [saturatingAdd, hsum]
  split
  · next hfits => rw [min_greatest_of_lt hnanos hfits, ofParts]
  · next hlarge => rw [min_greatest_of_le (Nat.not_lt.mp hlarge)]

end Duration

namespace Interval

variable {rate : Duration} {deltas : List Duration} {i : Interval} {n : Nat}

/-! ## One call -/

/-- The greatest value of the sum is not below the rate, so it does not show. -/
theorem advance_eq (h : i.rate ≤ .greatest) (delta : Duration) : i.advance delta =
    if i.rate.nanos ≤ i.accumulated.nanos + delta.nanos then (true, ⟨i.rate, .zero⟩)
    else (false, ⟨i.rate, ⟨i.accumulated.nanos + delta.nanos⟩⟩) := by
  change i.rate.nanos ≤ Duration.greatest.nanos at h
  have hreached : i.rate ≤ i.accumulated.saturatingAdd delta ↔
      i.rate.nanos ≤ i.accumulated.nanos + delta.nanos := by
    change i.rate.nanos ≤ min _ _ ↔ _
    omega
  rw [advance]
  simp only [hreached]
  split
  · rfl
  · next hshort =>
      have hmin : min (i.accumulated.nanos + delta.nanos) Duration.greatest.nanos =
          i.accumulated.nanos + delta.nanos := by omega
      rw [Duration.saturatingAdd, hmin]

/-! ## Many calls -/

/-- A call: the time that passed, and whether the interval fired. -/
structure Call where
  delta : Duration
  fired : Bool

def calls (i : Interval) (deltas : List Duration) : List Call :=
  List.zipWith (fun delta answer => ⟨delta, answer.1⟩) deltas (i.advanceAll deltas)

def after (i : Interval) (deltas : List Duration) : Interval :=
  deltas.foldl (fun i delta => (i.advance delta).2) i

def time (cs : List Call) : Nat := Duration.total (cs.map Call.delta)

def firings (cs : List Call) : Nat := cs.countP Call.fired

def since (cs : List Call) : Nat := time (cs.rtakeWhile fun c => !c.fired)

theorem advanceAll_append (i : Interval) (deltas more : List Duration) :
    i.advanceAll (deltas ++ more) = i.advanceAll deltas ++ (i.after deltas).advanceAll more := by
  induction deltas generalizing i with
  | nil => rfl
  | cons delta deltas ih =>
      rw [List.cons_append, advanceAll, ih, advanceAll]
      rfl

theorem length_advanceAll (i : Interval) (deltas : List Duration) :
    (i.advanceAll deltas).length = deltas.length := by
  induction deltas generalizing i with
  | nil => rfl
  | cons delta deltas ih => rw [advanceAll, List.length_cons, ih, List.length_cons]

theorem calls_cons (i : Interval) (delta : Duration) (deltas : List Duration) :
    i.calls (delta :: deltas) =
      ⟨delta, (i.advance delta).1⟩ :: (i.advance delta).2.calls deltas := rfl

theorem calls_append (i : Interval) (deltas more : List Duration) :
    i.calls (deltas ++ more) = i.calls deltas ++ (i.after deltas).calls more := by
  rw [calls, advanceAll_append,
    List.zipWith_append (length_advanceAll i deltas).symm]
  rfl

theorem map_delta_calls (i : Interval) (deltas : List Duration) :
    (i.calls deltas).map Call.delta = deltas := by
  induction deltas generalizing i with
  | nil => rfl
  | cons delta deltas ih => rw [calls_cons, List.map_cons, ih]

theorem time_append (cs ds : List Call) : time (cs ++ ds) = time cs + time ds := by
  simp [time]

theorem time_calls (i : Interval) (deltas : List Duration) :
    time (i.calls deltas) = Duration.total deltas := by
  rw [time, map_delta_calls]

theorem since_concat (cs : List Call) (c : Call) :
    since (cs ++ [c]) = if c.fired then 0 else since cs + c.delta.nanos := by
  cases hfired : c.fired with
  | true => simp [since, time, hfired]
  | false => simp [since, time, hfired]

theorem firings_cons (c : Call) (cs : List Call) :
    firings (c :: cs) = firings cs + if c.fired then 1 else 0 := List.countP_cons

/-- What an interval keeps is the time since it last fired. -/
theorem after_every (hpos : 0 < rate.nanos) (hrate : rate ≤ .greatest) (deltas : List Duration) :
    (every rate).after deltas = ⟨rate, ⟨since ((every rate).calls deltas)⟩⟩ ∧
      since ((every rate).calls deltas) < rate.nanos := by
  -- from the last call on: a call sees the time since the firing before it
  induction deltas using List.reverseRecOn with
  | nil => exact ⟨rfl, hpos⟩
  | append_singleton deltas delta ih =>
      obtain ⟨hafter, hlt⟩ := ih
      have hstep := advance_eq (i := (every rate).after deltas) (by rwa [hafter]) delta
      rw [hafter] at hstep
      have hlast : (every rate).after (deltas ++ [delta]) =
          (((every rate).after deltas).advance delta).2 := by
        rw [after, List.foldl_append]
        rfl
      have hcalls : (every rate).calls (deltas ++ [delta]) = (every rate).calls deltas ++
          [⟨delta, (((every rate).after deltas).advance delta).1⟩] := calls_append _ _ _
      rw [hlast, hcalls, since_concat, hafter, hstep]
      dsimp only
      split
      · exact ⟨rfl, hpos⟩
      · next hshort => exact ⟨rfl, Nat.not_le.mp hshort⟩

/-- Each firing takes at least the rate from the time that was kept and the time that passes. -/
theorem firings_mul_le (h : i.rate ≤ .greatest) (deltas : List Duration) :
    firings (i.calls deltas) * i.rate.nanos ≤ i.accumulated.nanos + Duration.total deltas := by
  induction deltas generalizing i with
  | nil => simp [calls, firings]
  | cons delta deltas ih =>
      rw [calls_cons, firings_cons, Duration.total_cons, advance_eq h]
      split
      · have hrest := ih (i := ⟨i.rate, .zero⟩) h
        have hzero : Duration.zero.nanos = 0 := rfl
        simp only [hzero, if_true, Nat.add_mul] at hrest ⊢
        omega
      · have hrest := ih (i := ⟨i.rate, ⟨i.accumulated.nanos + delta.nanos⟩⟩) h
        simp only [Bool.false_eq_true, if_false, Nat.add_zero] at hrest ⊢
        omega

/-- Calls that do not fire add to the time since the last firing. -/
theorem since_append_of_quiet (cs : List Call) {quiet : List Call}
    (h : ∀ c ∈ quiet, c.fired = false) : since (cs ++ quiet) = since cs + time quiet := by
  induction quiet using List.reverseRecOn with
  | nil => simp [time]
  | append_singleton quiet c ih =>
      rw [List.forall_mem_append] at h
      have hlast : c.fired = false := h.2 c (List.mem_singleton_self c)
      rw [← List.append_assoc, since_concat, if_neg (by simp [hlast]), ih h.1, time_append]
      simp [time, Nat.add_assoc]

theorem calls_take (i : Interval) (deltas : List Duration) (n : Nat) :
    (i.calls deltas).take n = i.calls (deltas.take n) := by
  induction deltas generalizing i n with
  | nil => simp [calls]
  | cons delta deltas ih =>
      cases n with
      | zero => rfl
      | succ n => rw [calls_cons, List.take_succ_cons, List.take_succ_cons, calls_cons, ih]

theorem calls_drop (i : Interval) (deltas : List Duration) (n : Nat) :
    (i.calls deltas).drop n = (i.after (deltas.take n)).calls (deltas.drop n) := by
  induction deltas generalizing i n with
  | nil => simp [calls]
  | cons delta deltas ih =>
      cases n with
      | zero => rfl
      | succ n => exact ih _ n

/-- The calls from one of them on, up to another one, are those of the interval that is left before
them. -/
theorem eq_calls {before run rest : List Call} (h : i.calls deltas = before ++ run ++ rest) :
    run = (i.after (deltas.take before.length)).calls
      ((deltas.drop before.length).take run.length) := by
  rw [← calls_take, ← calls_drop, h, List.append_assoc, List.drop_left, List.take_left]

/-- A run of calls that do not fire takes less than the rate. -/
theorem time_lt_of_quiet (hpos : 0 < rate.nanos) (hrate : rate ≤ .greatest)
    {before quiet rest : List Call} (h : (every rate).calls deltas = before ++ quiet ++ rest)
    (hquiet : ∀ c ∈ quiet, c.fired = false) : time quiet < rate.nanos := by
  have hfront : (every rate).calls (deltas.take (before ++ quiet).length) = before ++ quiet := by
    rw [← calls_take, h, List.take_left]
  have hlt := (after_every hpos hrate (deltas.take (before ++ quiet).length)).2
  rw [hfront, since_append_of_quiet before hquiet] at hlt
  omega

/-- A run of calls does not fire more often than its own time allows. -/
theorem firings_run_lt (hpos : 0 < rate.nanos) (hrate : rate ≤ .greatest)
    {before run rest : List Call} (h : (every rate).calls deltas = before ++ run ++ rest) :
    firings run * rate.nanos < time run + rate.nanos := by
  obtain ⟨hafter, hlt⟩ := after_every hpos hrate (deltas.take before.length)
  have hle := firings_mul_le (i := (every rate).after (deltas.take before.length))
    (by rwa [hafter]) ((deltas.drop before.length).take run.length)
  rw [← time_calls, ← eq_calls h, hafter] at hle
  dsimp only at hle
  omega

/-- The answer to one call of many. -/
theorem getElem?_advanceAll (hpos : 0 < rate.nanos) (hrate : rate ≤ .greatest) {delta : Duration}
    (h : deltas[n]? = some delta) :
    ((every rate).advanceAll deltas)[n]? =
      some (if rate.nanos ≤ since (((every rate).calls deltas).take n) + delta.nanos then
        (true, ⟨rate, .zero⟩)
      else (false, ⟨rate, ⟨since (((every rate).calls deltas).take n) + delta.nanos⟩⟩)) := by
  obtain ⟨hlt, hdelta⟩ := List.getElem?_eq_some_iff.mp h
  have hsplit : deltas = deltas.take n ++ delta :: deltas.drop (n + 1) := by
    rw [← hdelta, ← List.drop_eq_getElem_cons hlt, List.take_append_drop]
  have hlength : ((every rate).advanceAll (deltas.take n)).length = n := by
    rw [length_advanceAll, List.length_take_of_le (Nat.le_of_lt hlt)]
  have hstep := advance_eq (i := ⟨rate, ⟨since (((every rate).calls deltas).take n)⟩⟩) hrate delta
  rw [← hstep, calls_take, ← (after_every hpos hrate (deltas.take n)).1]
  conv_lhs => rw [hsplit, advanceAll_append]
  rw [List.getElem?_append_right (Nat.le_of_eq hlength), hlength, Nat.sub_self]
  rfl

theorem exists_delta {answer : Bool × Interval} (h : (i.advanceAll deltas)[n]? = some answer) :
    ∃ delta, deltas[n]? = some delta := by
  have hlt := (List.getElem?_eq_some_iff.mp h).1
  rw [length_advanceAll] at hlt
  exact ⟨deltas[n], List.getElem?_eq_getElem hlt⟩

/-- An answer leaves a time below the rate, and after a firing a new interval. -/
theorem of_getElem?_advanceAll (hpos : 0 < rate.nanos) (hrate : rate ≤ .greatest) {fired : Bool}
    {kept : Interval} (h : ((every rate).advanceAll deltas)[n]? = some (fired, kept)) :
    kept.accumulated.nanos < rate.nanos ∧ (fired = true → kept = every rate) := by
  obtain ⟨delta, hdelta⟩ := exists_delta h
  rw [getElem?_advanceAll hpos hrate hdelta, Option.some_inj] at h
  split at h
  · cases h
    exact ⟨hpos, fun _ => rfl⟩
  · next hshort =>
      cases h
      exact ⟨Nat.not_le.mp hshort, nofun⟩

/-- The answers after one of them are those of the interval that is left then. -/
theorem drop_advanceAll {answer : Bool × Interval} (h : (i.advanceAll deltas)[n]? = some answer) :
    (i.advanceAll deltas).drop (n + 1) = answer.2.advanceAll (deltas.drop (n + 1)) := by
  induction deltas generalizing i n with
  | nil => cases h
  | cons delta deltas ih =>
      cases n with
      | zero =>
          cases h
          rfl
      | succ n => exact ih h

/-! ## The main statement -/

/-- How an interval that fires at a rate counts the time of a run of calls. -/
structure CountsTime (rate : Duration) (deltas : List Duration) : Prop where
  /-- There is one answer for each call. -/
  length_eq : ((every rate).advanceAll deltas).length = deltas.length
  /-- A call fires just when the time since the last firing, its own included, has reached the rate;
  then nothing is kept, and otherwise all of that time, -/
  call : ∀ n delta, deltas[n]? = some delta → ((every rate).advanceAll deltas)[n]? =
    some (if rate.nanos ≤ since (((every rate).calls deltas).take n) + delta.nanos then
      (true, ⟨rate, .zero⟩)
    else (false, ⟨rate, ⟨since (((every rate).calls deltas).take n) + delta.nanos⟩⟩))
  /-- so what is kept is below the rate. -/
  kept_lt : ∀ fired kept, (fired, kept) ∈ (every rate).advanceAll deltas →
    kept.accumulated.nanos < rate.nanos
  /-- Each firing takes the rate from the time of the calls. -/
  firings_le : firings ((every rate).calls deltas) * rate.nanos ≤ Duration.total deltas
  /-- Calls that do not fire, such as those between two firings, take less than the rate. -/
  quiet_lt : ∀ before quiet rest, (every rate).calls deltas = before ++ quiet ++ rest →
    (∀ c ∈ quiet, c.fired = false) → time quiet < rate.nanos
  /-- However long the calls before it took, a run of calls fires at most once a call, and not more
  often than its own time allows. -/
  run_le : ∀ before run rest, (every rate).calls deltas = before ++ run ++ rest →
    firings run ≤ run.length ∧ firings run * rate.nanos < time run + rate.nanos
  /-- After a firing the answers are those of a new interval, whatever was beyond the rate. -/
  restart : ∀ n kept, ((every rate).advanceAll deltas)[n]? = some (true, kept) →
    ((every rate).advanceAll deltas).drop (n + 1) =
      (every rate).advanceAll (deltas.drop (n + 1))
  /-- The sums are those of seconds and nanoseconds with a carry. -/
  carried : ∀ a b : Duration, a.saturatingAdd b =
    if a.seconds + b.seconds + (a.subsecond + b.subsecond) / Duration.nanosPerSecond <
        UInt64.size then
      .ofParts (a.seconds + b.seconds + (a.subsecond + b.subsecond) / Duration.nanosPerSecond)
        ((a.subsecond + b.subsecond) % Duration.nanosPerSecond)
    else .greatest

/-- An interval of any rate but zero counts the time of any calls exactly. A rate is a span whose
seconds fit 64 bits. -/
theorem counts_time (hpos : 0 < rate.nanos) (hrate : rate.seconds < UInt64.size)
    (deltas : List Duration) : CountsTime rate deltas := by
  have hle := Duration.le_greatest_iff.mpr hrate
  refine ⟨length_advanceAll _ _, fun n delta => getElem?_advanceAll hpos hle,
    fun fired kept hmem => ?_, ?_, fun before quiet rest => time_lt_of_quiet hpos hle,
    fun before run rest hcalls => ⟨List.countP_le_length, firings_run_lt hpos hle hcalls⟩,
    fun n kept hfired => ?_, Duration.saturatingAdd_eq_carried⟩
  · obtain ⟨n, hn⟩ := List.mem_iff_getElem?.mp hmem
    exact (of_getElem?_advanceAll hpos hle hn).1
  · have htotal := firings_mul_le (i := every rate) hle deltas
    rwa [every, Duration.zero, Nat.zero_add] at htotal
  · rw [drop_advanceAll hfired, (of_getElem?_advanceAll hpos hle hfired).2 rfl]

/-- An interval of the greatest span there is, called with sums beyond it. -/
theorem counts_time_greatest :
    let deltas : List Duration := [.ofMillis 1, .greatest, .ofParts 5 999999999, .greatest]
    0 < Duration.greatest.nanos ∧ Duration.greatest.seconds < UInt64.size ∧
      ((every .greatest).advanceAll deltas).map (·.1) = [false, true, false, true] ∧
      CountsTime .greatest deltas := by
  intro deltas
  have hpos : 0 < Duration.greatest.nanos := by decide
  have hfits : Duration.greatest.seconds < UInt64.size := by decide
  exact ⟨hpos, hfits, by decide, counts_time hpos hfits deltas⟩

end Interval

end Realm
