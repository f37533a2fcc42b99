import Mathlib.Data.List.Forall2
import Realm.Proofs.Message.Grammar
import Realm.Proofs.Router.Progress
import Realm.Proofs.Server.Act
import Realm.Proofs.Wire.Framing

/-!
# What a reader makes of bytes

The bytes that a client has sent are frames and then part of a frame, or nothing, or something that
is no frame. A reader goes through the frames one by one. Main statement: as long as nobody disturbs
it, what it publishes are the commands that the packets say, and it ends at the first thing that it
cannot read, or where the bytes end.
-/

namespace Realm

open Wire (Ending Frame Packet Shortfall Stream Varint.decode WireError)

/-! ## Bytes that may go on -/

namespace Wire.Packet

variable {limit : Nat} {s : Stream} {taken left : List UInt8} {e : Option WireError}
  {fault : Wire.Fault}

/-- What is read where a stream fails: a failure counts whatever its kind before a packet, but
inside of one it may be taken for the end. -/
theorem read_of_ending_of_fault (he : Ending limit taken left e)
    (h : s.remaining = taken ++ left) (hfault : s.fault = some fault) :
    (read limit s).1 = .error (if e = none then .stream fault.reason
      else if e = some .truncated then (Shortfall.broke fault).inside else e.getD .truncated) := by
  cases he with
  | clean =>
      obtain ⟨s', htake, -⟩ := Stream.exists_take_of_lt (s := s) (n := 1) (by simp [h])
      rw [read, htake, Stream.shortfall, hfault]
      rfl
  | tooLarge left header_eq large =>
      obtain ⟨s', -, -, hread⟩ := read_of_length limit h header_eq
      rw [hread, if_pos large]
      rfl
  | malformed left header_eq header_length =>
      obtain ⟨s₁, hremaining, -, hread⟩ := read_of_cons limit h
      obtain ⟨s₂, hlength, -⟩ := Varint.exists_read_of_malformed (s := s₁)
        (by rw [hremaining]; exact Varint.decode_append_of_malformed header_eq left)
      rw [hread, hlength]
      rfl
  | insideHeader header_eq =>
      rw [List.append_nil] at h
      obtain ⟨s₁, hremaining, hfault', hread⟩ := read_of_cons limit h
      obtain ⟨s₂, hlength, -⟩ := Varint.exists_read_of_truncated (s := s₁)
        (by rw [hremaining]; exact header_eq)
      rw [hread, hlength, Stream.cause_of_some (hfault'.trans hfault)]
      rfl
  | @insidePayload kind header payload length header_eq fits short =>
      rw [List.append_nil] at h
      obtain ⟨s₁, hremaining, hfault', hread⟩ := read_of_length limit h header_eq
      obtain ⟨s₂, htake, -⟩ := Stream.exists_take_of_lt (s := s₁) (n := length.toNat)
        (by rw [hremaining]; exact short)
      rw [hread, if_neg (by omega), htake, Stream.shortfall, hfault', hfault]
      rfl

end Wire.Packet

namespace Uplink

variable {limit : Nat} {u : Uplink}

/-- What a reader sees of some bytes, `all` telling that no more come. -/
inductive Sees (limit : Nat) (all : Bool) : List UInt8 → Glimpse → Prop
  | packet (f : Frame) (rest : List UInt8) (fits : f.payload.length ≤ limit) :
      Sees limit all (f.bytes ++ rest) (.packet f.packet rest)
  | incomplete {taken left : List UInt8} {e : Option WireError} (ends : Ending limit taken left e)
      (short : e = none ∨ e = some .truncated) (more : all = false) :
      Sees limit all (taken ++ left) .incomplete
  | ended (all_eq : all = true) : Sees limit all [] .ended
  | broken {taken left : List UInt8} {e : WireError} (ends : Ending limit taken left (some e))
      (final : all = true ∨ e ≠ .truncated) : Sees limit all (taken ++ left) (.broken e)

theorem sees_glimpse (limit : Nat) (u : Uplink) :
    Sees limit u.hungUp u.unread (u.glimpse limit) := by
  obtain ⟨client, unread, hungUp, phase⟩ := u
  let s : Stream := ⟨[unread], if hungUp then none else some pending⟩
  have hs : s.remaining = unread := by simp [s, Stream.remaining]
  unfold glimpse
  dsimp only
  cases Frame.begins limit unread with
  | @frame f rest fits =>
      obtain ⟨s', hread, hremaining, -⟩ := Packet.read_of_frame hs fits
      rw [hread]
      dsimp only
      rw [hremaining]
      exact .packet f rest fits
  | @ending taken left e ends =>
      cases hungUp with
      | true =>
          obtain ⟨s', hread, -⟩ := Packet.read_of_ending ends hs rfl
          have hread' : Packet.read limit ⟨[taken ++ left], none⟩ = (Packet.stopped e, s') := hread
          simp only [if_true, hread']
          rcases ends.cases_eq with rfl | ⟨m, rfl⟩ | rfl | rfl
          · cases ends
            exact .ended rfl
          · exact .broken ends (.inl rfl)
          · exact .broken ends (.inl rfl)
          · exact .broken ends (.inl rfl)
      | false =>
          have hread := Packet.read_of_ending_of_fault ends hs rfl
          have hstream : s = ⟨[taken ++ left], some pending⟩ := rfl
          simp only [Bool.false_eq_true, if_false]
          rw [← hstream]
          cases hanswer : Packet.read limit s with
          | mk answer s' =>
              rw [hanswer] at hread
              cases hread
              rcases ends.cases_eq with rfl | ⟨m, rfl⟩ | rfl | rfl
              · exact .incomplete ends (.inl rfl) rfl
              · exact .broken ends (.inr (by simp))
              · exact .broken ends (.inr (by simp))
              · exact .incomplete ends (.inr rfl) rfl

end Uplink

/-! ## What packets say -/

/-- What a packet says: a command, or nothing if its kind is unknown; and what is wrong with it if
its kind is known, but it cannot be read. -/
def Command.saidBy (p : Packet) : List Command × Option WireError :=
  match Command.catalog.find? p.kind with
  | none => ([], none)
  | some type =>
    match type.decode p.payload with
    | .ok c => ([c], none)
    | .error e => ([], some e)

/-- What packets say one after the other, up to one that cannot be read. -/
def Command.spoken : List Packet → List Command × Option WireError
  | [] => ([], none)
  | p :: rest =>
    match saidBy p with
    | (cs, some e) => (cs, some e)
    | (cs, none) => (cs ++ (spoken rest).1, (spoken rest).2)

/-- What is made of bytes that come in pieces: the commands that their packets say, up to one that
cannot be read, and the first thing that is wrong with a packet or behind the packets. -/
def Command.readAll (limit : Nat) (chunks : List (List UInt8)) : List Command × Option WireError :=
  let read := Packet.readAll limit ⟨chunks, none⟩
  ((spoken read.1).1, (spoken read.1).2.or read.2.1)

/-- The deadline of a command that is published. Only logins have one. -/
def Command.deadline (now : Instant) (span : Duration) : Command → Option Instant
  | .login _ _ => some (now + span.millis)
  | _ => none

namespace Command

variable {ps : List Packet} {e : WireError}

theorem spoken_append_of_none (h : (spoken ps).2 = none) (more : List Packet) :
    spoken (ps ++ more) = ((spoken ps).1 ++ (spoken more).1, (spoken more).2) := by
  induction ps with
  | nil => rfl
  | cons p ps ih =>
      rw [List.cons_append, spoken]
      rw [spoken] at h ⊢
      cases hp : saidBy p with
      | mk cs error =>
          rw [hp] at h
          cases error with
          | none => simp [ih h]
          | some e => cases h

theorem spoken_append_of_some (h : (spoken ps).2 = some e) (more : List Packet) :
    spoken (ps ++ more) = spoken ps := by
  induction ps with
  | nil => cases h
  | cons p ps ih =>
      rw [List.cons_append, spoken, spoken]
      rw [spoken] at h
      cases hp : saidBy p with
      | mk cs error =>
          rw [hp] at h
          cases error with
          | none => simp [ih h]
          | some e => rfl

theorem spoken_concat (h : (spoken ps).2 = none) (p : Packet) :
    spoken (ps ++ [p]) = ((spoken ps).1 ++ (saidBy p).1, (saidBy p).2) := by
  have hone : spoken [p] = saidBy p := by
    rw [spoken]
    cases hp : saidBy p with
    | mk cs error => cases error <;> simp [spoken]
  rw [spoken_append_of_none h, hone]

end Command

/-- A packet is skipped, published or refused as it says nothing, a command or nonsense. -/
inductive Routed.Judges (now : Instant) (span : Duration) (client : ConnectionId) (p : Packet) :
    Except ServerError Routed → Prop
  | skipped (saidBy_eq : Command.saidBy p = ([], none)) : Judges now span client p (.ok .skipped)
  | published (c : Command) (saidBy_eq : Command.saidBy p = ([c], none)) :
      Judges now span client p
        (.ok (.published c.topic ⟨client, .command c, c.deadline now span⟩))
  | refused (e : WireError) (saidBy_eq : Command.saidBy p = ([], some e)) :
      Judges now span client p (.error (faultOf client e))

theorem Routed.judges_ofPacket (now : Instant) (span : Duration) (client : ConnectionId)
    (p : Packet) : Judges now span client p (ofPacket now span client p) := by
  unfold ofPacket
  cases hfind : Command.catalog.find? p.kind with
  | none =>
      have hdecode : Command.catalog.decode p = .error (.unknownKind p.kind) := by
        simp [Catalog.decode, hfind]
      rw [hdecode]
      exact .skipped (by simp [Command.saidBy, hfind])
  | some type =>
      obtain ⟨hkind, htyped⟩ := Command.find?_catalog_cases hfind
      cases hread : type.decode p.payload with
      | error e =>
          obtain ⟨fault, rfl⟩ := htyped.invalid p.payload e hread
          have hdecode : Command.catalog.decode p = .error (.invalidField fault) := by
            simp [Catalog.decode, hfind, hread]
          rw [hdecode]
          exact .refused _ (by simp [Command.saidBy, hfind, hread])
      | ok c =>
          have hdecode : Command.catalog.decode p = .ok (type.topic, c) := by
            simp [Catalog.decode, hfind, hread]
          have hdeadline : (if c.topic = .login then some (now + span.millis) else none) =
              c.deadline now span := by
            cases c <;> rfl
          rw [(Command.decode_eq_ok_iff.mp hdecode).1] at hdecode
          rw [hdecode]
          dsimp only
          rw [hdeadline]
          exact .published c (by simp [Command.saidBy, hfind, hread])

/-! ## One step of a reader -/

structure Publication where
  time : Instant
  router : Router Inbound
  delivery : Delivery Inbound

/-- A publication is that of a command of a client, on the topic of the command. -/
def Publication.Brings (span : Duration) (client : ConnectionId) (p : Publication) (c : Command) :
    Prop :=
  p.delivery = p.router.publish (Routed.ticket client) c.topic
    ⟨client, .command c, c.deadline p.time span⟩

namespace Uplink

variable {limits : LineLimits} {now : Instant} {router router' : Router Inbound} {u u' : Uplink}
  {sent more : List UInt8} {said : List Command}

/-- The publication that a reader begins when it comes from one state to another. -/
def begun (now : Instant) (router : Router Inbound) (u u' : Uplink) : List Publication :=
  match u.phase, u'.phase with
  | .reading _, .publishing d => [⟨now, router, d⟩]
  | _, _ => []

/-- What a reader has made of the bytes that were sent. It is still at them; or it has ended at a
packet that cannot be read, at something that is no frame, or where the bytes end. -/
inductive Follows (limit : Nat) (sent : List UInt8) (said : List Command) (u : Uplink) : Prop
  | going (fs : List Frame) (fits : Frame.AllFit limit fs)
      (sent_eq : sent = Frame.join fs ++ u.unread)
      (spoken_eq : Command.spoken (fs.map Frame.packet) = (said, none))
      (result_eq : u.result? = none)
  | refused (fs : List Frame) (rest : List UInt8) (e : WireError) (fits : Frame.AllFit limit fs)
      (sent_eq : sent = Frame.join fs ++ rest)
      (spoken_eq : Command.spoken (fs.map Frame.packet) = (said, some e))
      (result_eq : u.result? = some (.error (Routed.faultOf u.client e)))
  | broken (fs : List Frame) {taken left : List UInt8} (e : WireError)
      (fits : Frame.AllFit limit fs)
      (sent_eq : sent = Frame.join fs ++ (taken ++ left)) (ends : Ending limit taken left (some e))
      (final : u.hungUp = true ∨ e ≠ .truncated)
      (spoken_eq : Command.spoken (fs.map Frame.packet) = (said, none))
      (result_eq : u.result? = some (.error (Routed.faultOf u.client e)))
  | finished (fs : List Frame) (fits : Frame.AllFit limit fs) (sent_eq : sent = Frame.join fs)
      (all : u.hungUp = true) (spoken_eq : Command.spoken (fs.map Frame.packet) = (said, none))
      (result_eq : u.result? = some (.ok ()))

theorem follows_start (limit : Nat) (client : ConnectionId) (now : Instant) :
    Follows limit [] [] (start client now) :=
  .going [] nofun rfl rfl rfl

/-- Bytes that come to a reader that has ended change nothing. -/
theorem Follows.late (h : Follows limit sent said u) (hopen : u.hungUp = false)
    (hended : u.result? ≠ none) (more : List UInt8) : Follows limit (sent ++ more) said u := by
  cases h with
  | going fs fits sent_eq spoken_eq result_eq => exact absurd result_eq hended
  | refused fs rest e fits sent_eq spoken_eq result_eq =>
      exact .refused fs (rest ++ more) e fits (by rw [sent_eq, List.append_assoc]) spoken_eq
        result_eq
  | @broken fs taken left e fits sent_eq ends final spoken_eq result_eq =>
      have hfinal : e ≠ .truncated := final.resolve_left (by simp [hopen])
      have hends : Ending limit taken (left ++ more) (some e) := by
        cases ends with
        | tooLarge left header_eq large => exact .tooLarge _ header_eq large
        | malformed left header_eq header_length => exact .malformed _ header_eq header_length
        | _ => exact absurd rfl hfinal
      refine .broken fs e fits ?_ hends final spoken_eq result_eq
      rw [sent_eq, List.append_assoc, List.append_assoc]
  | finished fs fits sent_eq all => simp [hopen] at all

theorem Follows.feed (h : Follows limit sent said u) (hopen : u.hungUp = false)
    (more : List UInt8) : Follows limit (sent ++ more) said (u.feed more) := by
  by_cases hended : u.result? = none
  · cases h with
    | going fs fits sent_eq spoken_eq result_eq =>
        exact .going fs fits (by rw [sent_eq, List.append_assoc]; rfl) spoken_eq result_eq
    | _ => simp_all
  · cases h.late hopen hended more with
    | going fs fits sent_eq spoken_eq result_eq => exact absurd result_eq hended
    | refused fs rest e fits sent_eq spoken_eq result_eq =>
        exact .refused fs rest e fits sent_eq spoken_eq result_eq
    | broken fs e fits sent_eq ends final spoken_eq result_eq =>
        exact .broken fs e fits sent_eq ends final spoken_eq result_eq
    | finished fs fits sent_eq all spoken_eq result_eq =>
        exact .finished fs fits sent_eq all spoken_eq result_eq

theorem Follows.hangUp (h : Follows limit sent said u) : Follows limit sent said u.hangUp := by
  cases h with
  | going fs fits sent_eq spoken_eq result_eq => exact .going fs fits sent_eq spoken_eq result_eq
  | refused fs rest e fits sent_eq spoken_eq result_eq =>
      exact .refused fs rest e fits sent_eq spoken_eq result_eq
  | broken fs e fits sent_eq ends final spoken_eq result_eq =>
      exact .broken fs e fits sent_eq ends (.inl rfl) spoken_eq result_eq
  | finished fs fits sent_eq all spoken_eq result_eq =>
      exact .finished fs fits sent_eq rfl spoken_eq result_eq

/-- A reader acts upon the next packet. -/
theorem follows_accept {fs : List Frame} {f : Frame} {rest : List UInt8} {since : Instant}
    (fits : Frame.AllFit limits.maxPacket (fs ++ [f]))
    (spoken_eq : Command.spoken (fs.map Frame.packet) = (said, none))
    (sent_eq : sent = Frame.join (fs ++ [f]) ++ rest) (hphase : u.phase = .reading since)
    (hrest : u.unread = rest) (router : Router Inbound) :
    ∃ new, List.Forall₂ (Publication.Brings limits.loginDeadline u.client)
        (u.begun now router (u.accept limits now router f.packet)) new ∧
      Follows limits.maxPacket sent (said ++ new) (u.accept limits now router f.packet) := by
  have hspoken : Command.spoken ((fs ++ [f]).map Frame.packet) =
      (said ++ (Command.saidBy f.packet).1, (Command.saidBy f.packet).2) := by
    rw [List.map_append, List.map_singleton, Command.spoken_concat (by rw [spoken_eq]), spoken_eq]
  have hjudges := Routed.judges_ofPacket now limits.loginDeadline u.client f.packet
  unfold accept
  generalize Routed.ofPacket now limits.loginDeadline u.client f.packet = verdict at hjudges ⊢
  cases hjudges with
  | skipped saidBy_eq =>
      rw [saidBy_eq] at hspoken
      refine ⟨[], ?_, .going _ fits (hrest ▸ sent_eq) hspoken rfl⟩
      simp [begun, hphase, Routed.delivery]
  | published c saidBy_eq =>
      rw [saidBy_eq] at hspoken
      refine ⟨[c], ?_, .going _ fits (hrest ▸ sent_eq) hspoken rfl⟩
      simp [begun, hphase, Routed.delivery, Publication.Brings]
  | refused e saidBy_eq =>
      rw [saidBy_eq] at hspoken
      refine ⟨[], ?_, .refused _ rest e fits sent_eq hspoken rfl⟩
      simp [begun, hphase, finish]

/-- A reader that has ended does nothing more. -/
theorem step?_of_ended {closed : Bool} (h : u.result? ≠ none) :
    u.step? limits closed now router = none := by
  obtain ⟨client, unread, hungUp, phase⟩ := u
  cases phase with
  | ended result => rfl
  | _ => exact absurd rfl h

/-- A reader that reads and is not disturbed looks at the next thing. -/
theorem follows_reading {fs : List Frame} {since : Instant}
    (fits : Frame.AllFit limits.maxPacket fs) (sent_eq : sent = Frame.join fs ++ u.unread)
    (spoken_eq : Command.spoken (fs.map Frame.packet) = (said, none))
    (hphase : u.phase = .reading since)
    (hstep : u.step? limits false now router = some (u', router'))
    (hidle : u.glimpse limits.maxPacket = .incomplete → now < since + limits.idle.millis) :
    ∃ new, List.Forall₂ (Publication.Brings limits.loginDeadline u.client)
        (u.begun now router u') new ∧ Follows limits.maxPacket sent (said ++ new) u' := by
  have hsees := sees_glimpse limits.maxPacket u
  simp only [step?, hphase, Bool.false_eq_true, if_false] at hstep
  generalize hglimpse : u.glimpse limits.maxPacket = seen at hstep hsees
  generalize hunread : u.unread = bytes at hsees
  rw [hunread] at sent_eq
  cases hsees with
  | packet f rest hfits =>
      cases hstep
      have hall : Frame.AllFit limits.maxPacket (fs ++ [f]) := by
        intro g hg
        rcases List.mem_append.mp hg with hg | hg
        · exact fits g hg
        · rwa [List.mem_singleton.mp hg]
      have hjoin : sent = Frame.join (fs ++ [f]) ++ rest := by
        rw [sent_eq, ← List.append_assoc]
        simp [Frame.join]
      exact follows_accept (u := { u with unread := rest }) hall spoken_eq hjoin hphase rfl router
  | incomplete =>
      dsimp only at hstep
      rw [if_neg (Nat.not_le.mpr (hidle hglimpse))] at hstep
      cases hstep
  | ended all =>
      cases hstep
      refine ⟨[], by simp [begun, hphase, finish], ?_⟩
      rw [List.append_nil] at sent_eq ⊢
      exact .finished fs fits sent_eq all spoken_eq rfl
  | broken ends final =>
      cases hstep
      refine ⟨[], by simp [begun, hphase, finish], ?_⟩
      rw [List.append_nil]
      exact .broken fs _ fits sent_eq ends final spoken_eq rfl

/-- A reader that is not disturbed goes through the bytes. -/
theorem Follows.step (h : Follows limits.maxPacket sent said u)
    (hstep : u.step? limits false now router = some (u', router'))
    (hidle : ∀ since, u.phase = .reading since → u.glimpse limits.maxPacket = .incomplete →
      now < since + limits.idle.millis) :
    ∃ new, List.Forall₂ (Publication.Brings limits.loginDeadline u.client)
        (u.begun now router u') new ∧ Follows limits.maxPacket sent (said ++ new) u' := by
  cases h with
  | going fs fits sent_eq spoken_eq result_eq =>
      cases hphase : u.phase with
      | ended result => simp [result?, hphase] at result_eq
      | reading since =>
          exact follows_reading fits sent_eq spoken_eq hphase hstep (hidle since hphase)
      | publishing d =>
          refine ⟨[], ?_⟩
          rw [List.append_nil]
          simp only [step?, hphase] at hstep
          split at hstep
          · cases hstep
            exact ⟨by simp [begun, hphase], .going fs fits sent_eq spoken_eq rfl⟩
          · cases hstep
            exact ⟨by simp [begun, hphase], .going fs fits sent_eq spoken_eq rfl⟩
  | refused _ _ _ _ _ _ result_eq | broken _ _ _ _ _ _ _ result_eq
  | finished _ _ _ _ _ result_eq =>
      rw [step?_of_ended (by simp [result_eq])] at hstep
      cases hstep

/-! ## Where a reader ends -/

def verdict (client : ConnectionId) : Option WireError → Except ServerError Unit
  | none => .ok ()
  | some e => .error (Routed.faultOf client e)

theorem readAll_of_ending {limit : Nat} {chunks : List (List UInt8)} {fs : List Frame}
    {taken left : List UInt8} {e : Option WireError} (fits : Frame.AllFit limit fs)
    (h : chunks.flatten = Frame.join fs ++ (taken ++ left)) (ends : Ending limit taken left e) :
    Command.readAll limit chunks = ((Command.spoken (fs.map Frame.packet)).1,
      (Command.spoken (fs.map Frame.packet)).2.or e) := by
  obtain ⟨s₁, hreads, hremaining, hfault⟩ := Packet.reads_join (s := ⟨chunks, none⟩) fits h
  obtain ⟨s₂, hstop, -⟩ := Packet.read_of_ending ends hremaining hfault
  rw [Command.readAll, hreads.readAll_eq hstop]

/-- A kind that is unknown, a message, one that cannot be read, and one that nobody looks at. -/
example : Command.readAll 64
      [[77, 3], [1, 2, 3, 2, 3, 2], [104, 105, 2, 1, 9, 2, 3, 2, 104, 105]] =
    ([.chat "hi"], some (.invalidField (.tooShort "text" 9 0))) := by decide +kernel

/-- A reader that has ended has published what the packets say, and ended for the first thing that
is wrong with them or with the bytes behind them. -/
theorem Follows.ended {limit : Nat} {chunks : List (List UInt8)} {result : Except ServerError Unit}
    (h : Follows limit sent said u) (hchunks : chunks.flatten = sent)
    (hresult : u.result? = some result) : said = (Command.readAll limit chunks).1 ∧
      result = verdict u.client (Command.readAll limit chunks).2 := by
  cases h with
  | going fs fits sent_eq spoken_eq result_eq =>
      rw [hresult] at result_eq
      cases result_eq
  | refused fs rest e fits sent_eq spoken_eq result_eq =>
      cases hresult.symm.trans result_eq
      obtain ⟨gs, taken, left, e', hgs, rfl, ends⟩ := Frame.exists_join limit rest
      have hall : Frame.AllFit limit (fs ++ gs) := fun g hg =>
        (List.mem_append.mp hg).elim (fits g) (hgs g)
      have hflatten : chunks.flatten = Frame.join (fs ++ gs) ++ (taken ++ left) := by
        rw [hchunks, sent_eq, Frame.join, Frame.join, Frame.join, List.flatMap_append,
          List.append_assoc]
      have hspoken : Command.spoken ((fs ++ gs).map Frame.packet) = (said, some e) := by
        rw [List.map_append, Command.spoken_append_of_some (by rw [spoken_eq]), spoken_eq]
      rw [readAll_of_ending hall hflatten ends, hspoken]
      exact ⟨rfl, rfl⟩
  | broken fs e fits sent_eq ends final spoken_eq result_eq =>
      cases hresult.symm.trans result_eq
      rw [readAll_of_ending fits (hchunks.trans sent_eq) ends, spoken_eq]
      exact ⟨rfl, rfl⟩
  | finished fs fits sent_eq all spoken_eq result_eq =>
      cases hresult.symm.trans result_eq
      have hflatten : chunks.flatten = Frame.join fs ++ ([] ++ []) := by
        rw [hchunks, sent_eq, List.append_nil, List.append_nil]
      rw [readAll_of_ending fits hflatten .clean, spoken_eq]
      exact ⟨rfl, rfl⟩

/-- A reader ends well if and only if the client stops between two packets, all of which can be
read. -/
theorem Follows.ok_iff {limit : Nat} {result : Except ServerError Unit}
    (h : Follows limit sent said u) (hresult : u.result? = some result) :
    result = .ok () ↔ u.hungUp = true ∧ ∃ fs, Frame.AllFit limit fs ∧ sent = Frame.join fs ∧
      (Command.spoken (fs.map Frame.packet)).2 = none := by
  constructor
  · rintro rfl
    cases h with
    | finished fs fits sent_eq all spoken_eq result_eq =>
        exact ⟨all, fs, fits, sent_eq, by rw [spoken_eq]⟩
    | _ => simp_all
  · rintro ⟨-, fs, fits, hsent, hnone⟩
    have hone : [sent].flatten = sent := by simp
    have hflatten : [sent].flatten = Frame.join fs ++ ([] ++ []) := by simp [hsent]
    rw [(h.ended hone hresult).2, readAll_of_ending fits hflatten .clean, hnone]
    rfl

def Waits (limit : Nat) (u : Uplink) : Prop :=
  ∃ since, u.phase = .reading since ∧ u.glimpse limit = .incomplete

/-- A reader that waits for bytes has published what all the packets say, and more may come. -/
theorem Follows.of_waits {limit : Nat} {chunks : List (List UInt8)}
    (h : Follows limit sent said u) (hchunks : chunks.flatten = sent) (hwaits : u.Waits limit) :
    u.hungUp = false ∧ said = (Command.readAll limit chunks).1 ∧
      ∀ e ∈ (Command.readAll limit chunks).2, e = .truncated := by
  obtain ⟨since, hphase, hglimpse⟩ := hwaits
  cases h with
  | going fs fits sent_eq spoken_eq result_eq =>
      have hsees := sees_glimpse limit u
      rw [hglimpse] at hsees
      generalize hunread : u.unread = bytes at hsees
      rw [hunread] at sent_eq
      cases hsees with
      | incomplete ends short more =>
          rw [readAll_of_ending fits (hchunks.trans sent_eq) ends, spoken_eq]
          refine ⟨more, rfl, fun e he => ?_⟩
          rcases short with rfl | rfl
          · cases he
          · cases he
            rfl
  | _ => simp_all [result?]

theorem kept_accept (limits : LineLimits) (now : Instant) (router : Router Inbound) (u : Uplink)
    (p : Packet) : (u.accept limits now router p).hungUp = u.hungUp ∧
      (u.accept limits now router p).unread = u.unread := by
  unfold accept
  split
  · exact ⟨rfl, rfl⟩
  · split <;> exact ⟨rfl, rfl⟩

/-- How long a reader is kept by its delivery. -/
def pause (u : Uplink) : Nat :=
  match u.phase with
  | .publishing d => d.waits + 1
  | _ => 0

/-- A reader that does not wait for bytes can go on, if it is given time: it ends, or it has less to
do. -/
theorem exists_step {closed : Bool} (hgoes : u.result? = none)
    (hwaits : closed = true ∨ ¬ u.Waits limits.maxPacket) (now : Instant)
    (router : Router Inbound) : ∃ time u' router', now ≤ time ∧
      u.step? limits closed time router = some (u', router') ∧ u'.hungUp = u.hungUp ∧
      (u'.result? ≠ none ∨ u'.unread.length < u.unread.length ∨
        u'.unread = u.unread ∧ u'.pause < u.pause) := by
  cases hphase : u.phase with
  | ended result => simp [result?, hphase] at hgoes
  | publishing d =>
      obtain ⟨time, hnow, hdue⟩ := exists_late now d.waitUntil
      simp only [step?, hphase]
      by_cases hdone : (d.advance time router).2.isDone = true
      · refine ⟨time, _, _, hnow, if_pos hdone, rfl, .inr (.inr ⟨rfl, ?_⟩)⟩
        simp [pause, hphase]
      · refine ⟨time, _, _, hnow, if_neg hdone, rfl, .inr (.inr ⟨rfl, ?_⟩)⟩
        have hlt := (d.waits_advance router hdue).resolve_left hdone
        simpa [pause, hphase] using hlt
  | reading since =>
      refine ⟨now, ?_⟩
      simp only [step?, hphase]
      cases closed with
      | true => exact ⟨_, _, Nat.le_refl _, rfl, rfl, .inl nofun⟩
      | false =>
          have hsees := sees_glimpse limits.maxPacket u
          have hmore : u.glimpse limits.maxPacket ≠ .incomplete := fun hglimpse =>
            hwaits.elim Bool.false_ne_true fun h => h ⟨since, hphase, hglimpse⟩
          rw [if_neg Bool.false_ne_true]
          generalize u.glimpse limits.maxPacket = seen at hsees hmore ⊢
          generalize hunread : u.unread = bytes at hsees ⊢
          cases hsees with
          | packet f rest fits =>
              have hpos := f.two_le_length_bytes
              refine ⟨_, _, Nat.le_refl _, rfl, (kept_accept ..).1, .inr (.inl ?_)⟩
              rw [(kept_accept ..).2, List.length_append]
              dsimp only
              omega
          | incomplete => exact absurd rfl hmore
          | ended => exact ⟨_, _, Nat.le_refl _, rfl, rfl, .inl nofun⟩
          | broken => exact ⟨_, _, Nat.le_refl _, rfl, rfl, .inl nofun⟩

/-- A client that stays silent is not waited for for ever. -/
theorem exists_step_of_waits (h : u.Waits limits.maxPacket) (now : Instant)
    (router : Router Inbound) : ∃ time u', now ≤ time ∧
      u.step? limits false time router = some (u', router) ∧ u'.result? ≠ none := by
  obtain ⟨since, hphase, hglimpse⟩ := h
  obtain ⟨time, hnow, hdue⟩ := exists_late now (some (since + limits.idle.millis))
  refine ⟨time, u.finish (.error (idleError limits u.client)), hnow, ?_, ?_⟩
  · simp only [step?, hphase, hglimpse, Bool.false_eq_true, if_false]
    exact if_pos (hdue _ rfl)
  · simp [finish, result?]

end Uplink

end Realm
