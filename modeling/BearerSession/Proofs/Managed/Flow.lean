import BearerSession.Proofs.Header.Request
import BearerSession.Proofs.Managed.Working

/-!
# Requests under a manager

A request goes out with the cached header. When it is challenged, its sender asks for authorization
and waits for the outcome as long as it wants to; after a success the request goes out once more.
The manager goes on meanwhile, in any order of moves. A sender on an event loop waits on another
thread, which gives others time to go on and changes nothing else.

As long as nothing but the end of the attempt changes the header, the request is sent again exactly
after a success within the wait, and it bears the header of the grant then. It is not sent again,
for all the success, when this header has no form in the encoding in which the first request was
read.
-/

namespace BearerSession

/-- What somebody who waits for an outcome gets. -/
def Outcome.answer : Outcome → Except Raised Grant
  | .success g => .ok g
  | .failure r => .error (.session (.failure r))

/-- A server: the status and the fields of its replies, in order. -/
abbrev Server := Nat → Int × Fields

/-- A reply of a server. -/
def Server.reply (server : Server) (n : Nat) : Reply := ⟨(server n).1, .fields (server n).2⟩

/-- A request under way: the host it is authorized for, who waits for the authorization and how
long, and what others do in the meantime. -/
structure Flow (L : Type) where
  /-- The host that a process is started for. -/
  host : Value
  /-- Who waits. -/
  caller : L
  /-- How long; without a limit the wait takes as long as the attempt. -/
  limit : Option Seconds
  /-- What happens until authorization is asked for. -/
  asking : List (Managed.Move L)
  /-- What happens until it is looked whether the outcome is there. -/
  entering : List (Managed.Move L)
  /-- What happens while the outcome is waited for. -/
  waiting : List (Managed.Move L)
  /-- What happens until the header is read again. -/
  resuming : List (Managed.Move L)

/-- How the sender of a request runs: in one thread, or on an event loop. There the wait is handed
to another thread and its end is handed back, and others go on while that takes place. -/
inductive SendMode (L : Type) where
  /-- In one thread. -/
  | sync
  /-- On an event loop. -/
  | async (out back : List (Managed.Move L))

namespace Managed

variable {σ L : Type}

/-- The outcome that a call was told, if it was told one. -/
def outcomeOf? (call : Nat) (log : List Event) : Option Outcome :=
  log.findSome? fun
    | .told _ c o => if c = call then some o else none
    | _ => none

theorem outcomeOf?_eq_some {call : Nat} {log : List Event} {o : Outcome}
    (h : outcomeOf? call log = some o) : ∃ number, .told number call o ∈ log := by
  obtain ⟨e, he, ho⟩ := List.exists_of_findSome?_eq_some h
  cases e with
  | told n c o' =>
    obtain ⟨hc, ho⟩ := Option.ite_none_right_eq_some.mp ho
    rw [← hc, ← Option.some.inj ho]
    exact ⟨n, he⟩
  | _ => contradiction

theorem outcomeOf?_eq_none {call : Nat} {log : List Event} (h : outcomeOf? call log = none)
    (number : Nat) (o : Outcome) : .told number call o ∉ log := by
  intro hm
  have hnone := List.findSome?_eq_none_iff.mp h _ hm
  simp at hnone

variable [Durable σ]

/-- Do something in another thread. Others go on until it has begun and until its end is known. -/
def elsewhere {α : Type} (out back : List (Move L)) (act : Act (Managed σ L) α) :
    Act (Managed σ L) α := fun s =>
  match act (s.run out) with
  | .ok a t => .ok a (t.run back)
  | .error e t => .error e (t.run back)

end Managed

namespace Flow

variable {σ L : Type} [Durable σ] (f : Flow L) (s : Managed σ L)

open Managed (Event)

/-- When authorization is asked for. -/
def before : Managed σ L := s.run f.asking

/-- The number of the call that asks for it. -/
def call : Nat := (f.before s).calls

/-- After it has been asked for. -/
def asked : Managed σ L := (f.before s).step (.obtain f.host [] (some f.caller))

/-- The attempt that has been joined or created. -/
def attempt : Nat := (f.asked s).manager.inflight.getD 0

/-- When it is looked whether the outcome is there. -/
def begun : Managed σ L := (f.asked s).run f.entering

/-- When the wait is over. -/
def ended : Managed σ L := (f.begun s).run f.waiting

/-- When the header is read again. -/
def resumed : Managed σ L := (f.ended s).run f.resuming

/-- What is raised at once instead of waiting. A wait without any time is over, and one that is too
long cannot be waited. -/
def unwaited? : Option Raised :=
  f.limit.bind fun limit =>
    if !limit.value.isPositive then some (.session (.failure (.unanswered limit)))
    else if Seconds.longest.lt limit.value then some .overlongWait
    else none

/-- What is raised at the end of a wait without an outcome. Without a limit there is no end. -/
def lapse : Raised := f.limit.elim .deadlock fun limit => .session (.failure (.unanswered limit))

/-- What comes of the wait. -/
def verdict : Except Raised Grant :=
  match (f.before s).manager.obtain f.host [] (some ⟨f.call s, f.caller⟩) with
  | .error e => .error (.session e)
  | .ok _ =>
    match Managed.outcomeOf? (f.call s) (f.begun s).log with
    | some o => o.answer
    | none =>
      match f.unwaited? with
      | some e => .error e
      | none =>
        match Managed.outcomeOf? (f.call s) (f.ended s).log with
        | some o => o.answer
        | none => .error f.lapse

/-- Ask for authorization and wait for the outcome. -/
def wait : Act (Managed σ L) Grant := fun s =>
  match f.verdict s with
  | .ok g => .ok g (f.resumed s)
  | .error e => .error e (f.resumed s)

/-- Wait the way the sender runs. -/
def waitIn (mode : SendMode L) : Act (Managed σ L) Grant :=
  match mode with
  | .sync => f.wait
  | .async out back => Managed.elsewhere out back f.wait

/-- Send a request. -/
def send (mode : SendMode L) (server : Server) (fields : Fields) :
    Managed σ L → Exchange × Managed σ L :=
  Exchange.run (fun s => s.session.store.header) (discard (f.waitIn mode))
    (fun n => .ok (server.reply n)) fields

/-- The flow in one thread that is the same as a flow. -/
def inThread : SendMode L → Flow L
  | .sync => f
  | .async out back =>
    { f with asking := out ++ f.asking, resuming := f.resuming ++ back }

/-- Handing a wait over and back is no more than time for others to go on. -/
theorem waitIn_eq (mode : SendMode L) :
    (f.waitIn mode : Act (Managed σ L) Grant) = (f.inThread mode).wait := by
  cases mode with
  | sync => rfl
  | async out back =>
    funext s
    have hbefore : (f.inThread (.async out back)).before s = f.before (s.run out) :=
      Managed.run_append s out f.asking
    have hresumed : (f.inThread (.async out back)).resumed s =
        (f.resumed (s.run out)).run back := by
      simp only [resumed, ended, begun, asked, hbefore]
      exact Managed.run_append ..
    have hverdict : (f.inThread (.async out back)).verdict s = f.verdict (s.run out) := by
      simp only [verdict, ended, begun, asked, call, hbefore]
      rfl
    simp only [waitIn, Managed.elsewhere, wait, hverdict, hresumed]
    cases f.verdict (s.run out) <;> rfl

/-- A request is sent from an event loop as it is sent from a thread. -/
theorem send_eq (mode : SendMode L) (server : Server) (fields : Fields) :
    f.send mode server fields s = (f.inThread mode).send .sync server fields s := by
  simp only [send, waitIn_eq, inThread]

section Asking

variable {f s}

/-- An open manager accepts the call. -/
theorem exists_asked (hs : (f.before s).Working) (hopen : (f.before s).manager.closed = false) :
    ∃ m, (f.before s).manager.obtain f.host [] (some ⟨f.call s, f.caller⟩) = .ok m ∧
      f.asked s = ({ f.before s with manager := m, calls := f.call s + 1 } : Managed σ L).record
        (.accepted (f.call s)) := by
  obtain ⟨m, hm⟩ := Manager.exists_obtain_eq_ok hs.hasProcess hopen f.host []
    (⟨f.call s, f.caller⟩ : Call L)
  refine ⟨m, hm, ?_⟩
  have hm' : (f.before s).manager.obtain f.host []
      ((some f.caller).map fun l => ⟨(f.before s).calls, l⟩) = .ok m := hm
  simp only [asked, Managed.step, Managed.step?, hm', call]

/-- The call waits in the attempt that it joined or created. -/
theorem mem_roster_attempt (hs : (f.before s).Working)
    (hopen : (f.before s).manager.closed = false) :
    ∃ entry ∈ (f.asked s).manager.roster, entry.1 = f.attempt s ∧
      f.call s ∈ entry.2.map Call.number := by
  obtain ⟨m, hm, hasked⟩ := exists_asked hs hopen
  obtain ⟨⟨entry, hentry, hinflight, hcall⟩, -⟩ := hs.sound.orderly.obtain hm
  refine ⟨entry, ?_, ?_, List.mem_map_of_mem (f := Call.number) hcall⟩
  · rw [hasked]
    exact hentry
  · rw [attempt, hasked]
    exact (congrArg (Option.getD · 0) hinflight).symm

/-- At most one attempt is created. -/
theorem created_asked_le (hs : (f.before s).Working)
    (hopen : (f.before s).manager.closed = false) :
    (f.asked s).manager.created ≤ (f.before s).manager.created + 1 := by
  obtain ⟨m, hm, hasked⟩ := exists_asked hs hopen
  rw [hasked]
  exact (hs.sound.orderly.obtain hm).2

end Asking

/-- The call is told an outcome of its attempt within the wait: before it looks for one, or later if
it waits. -/
def Told (o : Outcome) : Prop :=
  .told (f.attempt s) (f.call s) o ∈ (f.begun s).log ∨
    (f.unwaited? = none ∧ .told (f.attempt s) (f.call s) o ∈ (f.ended s).log)

/-- A wait that comes to no end of its own, with the error of that. -/
inductive Impasse : Raised → Prop
  /-- It would have to be longer than any wait. -/
  | overlong : f.unwaited? = some .overlongWait →
      (∀ o, .told (f.attempt s) (f.call s) o ∉ (f.begun s).log) → Impasse .overlongWait
  /-- It has no limit, and nobody ever tells an outcome. -/
  | endless : f.limit = none →
      (∀ o, .told (f.attempt s) (f.call s) o ∉ (f.ended s).log) → Impasse .deadlock

/-- What comes of a wait. -/
inductive Ends : Except Raised Grant → Prop
  /-- A grant, when the attempt succeeded within the wait. -/
  | success {g : Grant} : f.Told s (.success g) → Ends (.ok g)
  /-- A failure, when it did not and the wait came to an end. -/
  | failure {r : Failure} : (∀ g, ¬ f.Told s (.success g)) → (∀ e, ¬ f.Impasse s e) →
      Ends (.error (.session (.failure r)))
  /-- Another error, when it came to none. -/
  | impasse {e : Raised} : f.Impasse s e → Ends (.error e)

section Ending

variable {f s}

theorem begun_log_subset : (f.begun s).log ⊆ (f.ended s).log :=
  (Managed.run_log _ _).subset

theorem Told.mem_ended {o : Outcome} (h : f.Told s o) :
    .told (f.attempt s) (f.call s) o ∈ (f.ended s).log :=
  h.elim (fun h => begun_log_subset h) And.right

/-- Whoever has been told is not at an impasse. -/
theorem Told.not_impasse {o : Outcome} (h : f.Told s o) (e : Raised) : ¬ f.Impasse s e := by
  rintro (⟨hlimit, hnobody⟩ | ⟨-, hnobody⟩)
  · rcases h with h | ⟨hwaited, -⟩
    · exact hnobody o h
    · rw [hlimit] at hwaited
      contradiction
  · exact hnobody o h.mem_ended

omit [Durable σ] in
/-- A limit that is not waited for is over or too long. -/
theorem unwaited?_eq_some {e : Raised} (h : f.unwaited? = some e) :
    e = .overlongWait ∨
      ∃ limit, f.limit = some limit ∧ e = .session (.failure (.unanswered limit)) := by
  obtain ⟨limit, hlimit, he⟩ := Option.bind_eq_some_iff.mp h
  split at he
  · exact .inr ⟨limit, hlimit, (Option.some.inj he).symm⟩
  · split at he
    · exact .inl (Option.some.inj he).symm
    · contradiction

/-- A wait is at one impasse at most. -/
theorem Impasse.unique {e e' : Raised} (h : f.Impasse s e) (h' : f.Impasse s e') : e = e' := by
  have hlimited : f.unwaited? = some .overlongWait → f.limit ≠ none := by
    intro hover hnolimit
    rw [unwaited?, hnolimit] at hover
    contradiction
  cases h with
  | overlong hover =>
    cases h' with
    | overlong => rfl
    | endless hnolimit => exact absurd hnolimit (hlimited hover)
  | endless hnolimit =>
    cases h' with
    | overlong hover => exact absurd hnolimit (hlimited hover)
    | endless => rfl

/-- A wait with a limit that can be waited for is at no impasse. -/
theorem not_impasse_of_limit {limit : Seconds} (hlimit : f.limit = some limit)
    (hshort : f.unwaited? ≠ some .overlongWait) (e : Raised) : ¬ f.Impasse s e := by
  rintro (⟨hover, -⟩ | ⟨hnolimit, -⟩)
  · exact hshort hover
  · rw [hlimit] at hnolimit
    contradiction

/-- An impasse is no failed authorization. -/
theorem Impasse.isFailure_eq_false {e : Raised} (h : f.Impasse s e) :
    Exchange.isFailure e = false := by
  cases h <;> rfl

variable [LawfulDurable σ] (hs : s.Working)

include hs

/-- A call is told one outcome only. -/
theorem Told.inj {o o' : Outcome} (h : f.Told s o) (h' : f.Told s o') : o = o' := by
  have hended : (f.ended s).Working := (((hs.run _).run [_]).run _).run _
  exact hended.sound.recorded.told_inj h.mem_ended h'.mem_ended

theorem Told.ends {o : Outcome} (h : f.Told s o) : f.Ends s o.answer := by
  cases o with
  | success g => exact .success h
  | failure r =>
    refine .failure (fun g hg => ?_) h.not_impasse
    have hsame := h.inj hs hg
    contradiction

variable (hopen : (f.before s).manager.closed = false)

include hopen

/-- The call is told by its attempt only. -/
theorem number_eq {moves : List (Managed.Move L)} {number : Nat} {o : Outcome}
    (h : .told number (f.call s) o ∈ ((f.asked s).run moves).log) : number = f.attempt s := by
  have hasked : (f.asked s).Working := (hs.run _).run [_]
  have hlater := hasked.run moves
  obtain ⟨entry, hentry, hnumber, hcall⟩ := mem_roster_attempt (hs.run _) hopen
  have hb : (f.asked s).Belongs (f.call s) (f.attempt s) := .inl ⟨entry, hentry, hnumber, hcall⟩
  exact hlater.accounted.number_eq_of_told hlater.sound.recorded h
    (hb.run hasked.sound.orderly moves)

theorem verdict_ends : f.Ends s (f.verdict s) := by
  obtain ⟨m, hm, -⟩ := exists_asked (hs.run _) hopen
  have hended : f.ended s = (f.asked s).run (f.entering ++ f.waiting) :=
    (Managed.run_append ..).symm
  simp only [verdict, hm]
  split
  · next o ho =>
    obtain ⟨number, htold⟩ := Managed.outcomeOf?_eq_some ho
    obtain rfl := number_eq hs hopen htold
    exact Told.ends hs (.inl htold)
  · next hnone =>
    have hbegun := fun o => Managed.outcomeOf?_eq_none hnone (f.attempt s) o
    split
    · next e he =>
      have huntold : ∀ o, ¬ f.Told s o := by
        rintro o (h | ⟨hwaited, -⟩)
        · exact hbegun o h
        · rw [he] at hwaited
          contradiction
      obtain rfl | ⟨limit, hlimit, rfl⟩ := unwaited?_eq_some he
      · exact .impasse (.overlong he hbegun)
      · refine .failure (fun g => huntold _) (not_impasse_of_limit hlimit ?_)
        simp [he]
    · next hwaited =>
      split
      · next o ho =>
        obtain ⟨number, htold⟩ := Managed.outcomeOf?_eq_some ho
        obtain rfl := number_eq hs hopen (hended ▸ htold)
        exact Told.ends hs (.inr ⟨hwaited, htold⟩)
      · next hnone' =>
        have hending := fun o => Managed.outcomeOf?_eq_none hnone' (f.attempt s) o
        cases hlimit : f.limit with
        | none =>
          rw [lapse, hlimit]
          exact .impasse (.endless hlimit hending)
        | some limit =>
          rw [lapse, hlimit]
          refine .failure (fun g h => hending _ h.mem_ended) (not_impasse_of_limit hlimit ?_)
          simp [hwaited]

end Ending

/-- The starts of processes for attempts that the call has created. -/
def startsCaused (log : List Event) : List Nat :=
  (Managed.starts log).filter fun number =>
    (f.before s).manager.created ≤ number ∧ number < (f.asked s).manager.created

/-- How it goes with a request that is first sent with certain fields, up to the last state. -/
structure Course (server : Server) (first : Fields) (x : Exchange × Managed σ L) : Prop where
  /-- The reply is a challenge or none. -/
  decided : ∃ b, (server.reply 0).isChallenge = .ok b
  /-- When it is none, it is the answer, and authorization is not asked for. -/
  unchallenged : (server.reply 0).isChallenge = .ok false →
    x = (⟨[first], .ok (server.reply 0)⟩, s)
  /-- When the attempt succeeded within the wait, the request is sent once more with the header of
  the grant and otherwise unchanged, and the reply to that is the answer; but the request is not
  sent, and the header is refused, when it has no form in the encoding in which the first request
  was read. -/
  success : (server.reply 0).isChallenge = .ok true → ∀ g, f.Told s (.success g) →
    if first.takes g.header then
      ∃ second, Exchange.Sendable first (some g.header) second ∧
        x = (⟨[first, second], .ok (server.reply 1)⟩, f.resumed s)
    else x = (⟨[first], .error .unencodable⟩, f.resumed s)
  /-- When it did not, the challenge is the answer. -/
  failure : (server.reply 0).isChallenge = .ok true → (∀ g, ¬ f.Told s (.success g)) →
    (∀ e, ¬ f.Impasse s e) → x = (⟨[first], .ok (server.reply 0)⟩, f.resumed s)
  /-- When the wait came to no end of its own, there is no answer. -/
  impasse : (server.reply 0).isChallenge = .ok true → ∀ e, f.Impasse s e →
    x = (⟨[first], .error e⟩, f.resumed s)
  /-- At most one process is ever started because of a challenge. -/
  starts : (server.reply 0).isChallenge = .ok true → ∀ later,
    (f.startsCaused s (x.2.run later).log).length ≤ 1

/-- Nothing disturbs a flow: the manager is open when it is asked, and from then on nothing but the
end of the attempt changes the header. -/
structure Undisturbed : Prop where
  /-- The manager is open. -/
  isOpen : (f.before s).manager.closed = false
  /-- The header is left alone. -/
  kept : Managed.HeaderKept (f.attempt s) (f.asked s) (f.entering ++ f.waiting ++ f.resuming)

/-- What becomes of a request, whichever way its sender runs. -/
structure TakesCourse (mode : SendMode L) (server : Server) (fields : Fields) : Prop where
  /-- A sender on an event loop does what one in a thread does while others go on a bit longer. -/
  inThread : f.send mode server fields s = (f.inThread mode).send .sync server fields s
  /-- It does the same when they do not. -/
  alike : f.send (.async [] []) server fields s = f.send .sync server fields s
  /-- The request is sent with the cached header, and otherwise as it is, and takes its course from
  there; only one that had been read before can fail to be sent, when the header has no form in its
  encoding. -/
  sent : (∃ first, Exchange.Sendable fields s.session.store.header first ∧
      (f.inThread mode).Course s server first (f.send mode server fields s)) ∨
    ∃ header, s.session.store.header = some header ∧ fields.settled ≠ none ∧
      fields.takes header = false ∧ f.send mode server fields s = (⟨[], .error .unencodable⟩, s)

section Sending

variable {f s} {server : Server} {fields first : Fields}

/-- A challenge is answered by waiting. -/
theorem send_challenged (hfirst : Exchange.prepared fields s.session.store.header = .ok first)
    (hc : (server.reply 0).isChallenge = .ok true) :
    f.send .sync server fields s =
      match f.verdict s with
      | .ok _ => (Exchange.resend (fun s => s.session.store.header)
          (fun n => .ok (server.reply n)) first (f.resumed s), f.resumed s)
      | .error e => (⟨[first], if Exchange.isFailure e then .ok (server.reply 0) else .error e⟩,
          f.resumed s) := by
  have hwait : (discard (f.waitIn .sync) : Act (Managed σ L) Unit) s =
      match f.verdict s with
      | .ok _ => .ok () (f.resumed s)
      | .error e => .error e (f.resumed s) := by
    change EStateM.map (fun _ => ()) f.wait s = _
    simp only [EStateM.map, wait]
    cases f.verdict s <;> rfl
  simp only [send, Exchange.run, hfirst, hc, Exchange.answerChallenge, hwait]
  cases f.verdict s <;> rfl

/-- Without a challenge nothing else is done. -/
theorem send_unchallenged (hfirst : Exchange.prepared fields s.session.store.header = .ok first)
    (hc : (server.reply 0).isChallenge = .ok false) :
    f.send .sync server fields s = (⟨[first], .ok (server.reply 0)⟩, s) := by
  simp only [send, Exchange.run, hfirst, hc]

variable [LawfulDurable σ] (hs : s.Working) (h : f.Undisturbed s)

include hs h

/-- After a success within the wait the header is that of the grant when it is read again. -/
theorem header_resumed {g : Grant} (hg : f.Told s (.success g)) :
    (f.resumed s).session.store.header = some g.header := by
  have hasked : (f.asked s).Working := (hs.run _).run [_]
  have hresumed : f.resumed s = (f.asked s).run (f.entering ++ f.waiting ++ f.resuming) := by
    rw [Managed.run_append, Managed.run_append]
    rfl
  have houtstanding : (f.asked s).Shows (f.attempt s) := by
    intro accepted g calls hf
    obtain ⟨entry, hentry, hnumber, -⟩ := mem_roster_attempt (hs.run _) h.isOpen
    have hgone := hasked.sound.recorded.gone (f.attempt s)
      (Managed.mem_finishes.mpr ⟨accepted, _, calls, hf⟩)
    exact absurd (hnumber ▸ List.mem_map_of_mem hentry) hgone
  have hshows := houtstanding.run hasked h.kept
  rw [← hresumed] at hshows
  have hended : (f.ended s).Working := (hasked.run _).run _
  obtain ⟨accepted, calls, hf, -⟩ := hended.sound.recorded.told _ _ _ hg.mem_ended
  exact hshows accepted g calls ((Managed.run_log _ _).subset hf)

/-- However others go on afterwards, at most one process is started for the call. -/
theorem length_startsCaused_le (later : List (Managed.Move L)) :
    (f.startsCaused s ((f.resumed s).run later).log).length ≤ 1 := by
  have hlater : ((f.resumed s).run later).Working :=
    ((((hs.run _).run [_]).run _).run _ |>.run _).run later
  have hcreated := created_asked_le (hs.run _) h.isOpen
  have hsame : ∀ number ∈ f.startsCaused s ((f.resumed s).run later).log,
      number = (f.before s).manager.created := by
    intro number hnumber
    have hbetween := of_decide_eq_true (List.mem_filter.mp hnumber).2
    omega
  have hnodup : (f.startsCaused s ((f.resumed s).run later).log).Nodup := hlater.once.filter _
  rw [List.eq_replicate_of_mem hsame] at hnodup
  exact List.nodup_replicate.mp hnodup

/-- A request that is sent takes its course. -/
theorem course (hfirst : Exchange.prepared fields s.session.store.header = .ok first) :
    f.Course s server first (f.send .sync server fields s) where
  decided := Reply.isChallenge_fields _ _
  unchallenged hc := send_unchallenged hfirst hc
  success hc g hg := by
    have hends := verdict_ends hs h.isOpen
    rw [send_challenged hfirst hc]
    generalize f.verdict s = verdict at hends
    cases hends with
    | @success g' hg' =>
      obtain rfl : g' = g := Outcome.success.inj (hg'.inj hs hg)
      have hheader := header_resumed hs h hg
      by_cases htakes : first.takes g'.header = true
      · obtain ⟨second, hsecond, hsendable⟩ := Exchange.prepared_some htakes
        rw [if_pos htakes]
        refine ⟨second, hsendable, ?_⟩
        simp only [Exchange.resend, hheader, hsecond]
      · rw [if_neg htakes]
        simp only [Exchange.resend, hheader,
          Exchange.prepared_error (Bool.eq_false_iff.mpr htakes)]
    | failure hno => exact absurd hg (hno g)
    | impasse he => exact absurd he (hg.not_impasse _)
  failure hc hno hend := by
    have hends := verdict_ends hs h.isOpen
    rw [send_challenged hfirst hc]
    generalize f.verdict s = verdict at hends
    cases hends with
    | success hg => exact absurd hg (hno _)
    | failure => rfl
    | impasse he => exact absurd he (hend _)
  impasse hc e he := by
    have hends := verdict_ends hs h.isOpen
    rw [send_challenged hfirst hc]
    generalize f.verdict s = verdict at hends
    cases hends with
    | success hg => exact absurd he (hg.not_impasse e)
    | failure _ hend => exact absurd he (hend e)
    | impasse he' =>
      obtain rfl := he.unique he'
      simp only [he.isFailure_eq_false, Bool.false_eq_true, if_false]
  starts hc later := by
    have hlast : (f.send .sync server fields s).2 = f.resumed s := by
      rw [send_challenged hfirst hc]
      cases f.verdict s <;> rfl
    rw [hlast]
    exact length_startsCaused_le hs h later

end Sending

section Runs

/-- Whatever a manager with a process has gone through, a request under it takes its course as long
as nothing disturbs it. -/
theorem send_takesCourse [LawfulDurable σ] (share : Bool) (timeout : Option Binary64)
    (session : Session σ) (hsession : ∀ n, (session.store.cell n).IsAt n)
    (past : List (Managed.Move L)) (f : Flow L) (mode : SendMode L) (server : Server)
    (fields : Fields)
    (h : (f.inThread mode).Undisturbed ((Managed.new share timeout true session).run past)) :
    f.TakesCourse ((Managed.new share timeout true session).run past) mode server fields := by
  have hs := (Managed.working_new (L := L) share timeout hsession).run past
  generalize (Managed.new share timeout true session : Managed σ L).run past = s at h hs
  refine ⟨send_eq f s mode server fields, ?_, ?_⟩
  · have hsame : f.inThread (.async [] []) = f := by
      simp only [Flow.inThread, List.nil_append, List.append_nil]
    rw [send_eq f s (.async [] []), hsame]
  · rw [send_eq f s mode]
    cases hheader : s.session.store.header with
    | none =>
      obtain ⟨first, hfirst, hsendable⟩ := Exchange.prepared_none fields
      exact .inl ⟨first, hsendable, course hs h (hheader ▸ hfirst)⟩
    | some header =>
      by_cases htakes : fields.takes header = true
      · obtain ⟨first, hfirst, hsendable⟩ := Exchange.prepared_some htakes
        exact .inl ⟨first, hsendable, course hs h (hheader ▸ hfirst)⟩
      · have hrefused := Bool.eq_false_iff.mpr htakes
        refine .inr ⟨header, rfl, fun hunread => htakes (Fields.takes_of_unread hunread header),
          hrefused, ?_⟩
        simp only [send, Exchange.run, hheader, Exchange.prepared_error hrefused]

/-- A server that challenges the first request and accepts the second. -/
def guarded : Server
  | 0 => (401, ⟨[(Fields.bytes "WWW-Authenticate", Fields.bytes "Bearer")], none⟩)
  | _ => (200, ⟨[], none⟩)

/-- A request without fields, which has not been read. -/
def bare : Fields := ⟨[], none⟩

/-- A manager over a session without credentials. -/
def fresh : Managed Memory String := .new true none true ⟨.blank .always, ⟨[], []⟩⟩

/-- What happens when a process reports an outcome at once. -/
def promptly (o : Outcome) : List (Managed.Move String) :=
  [.take, .start 0, .report 0 o, .await 0 (.zero false), .finish 0, .tell 0 none]

/-- A flow that is told an outcome before it looks for one. -/
def prompt (o : Outcome) : Flow String := ⟨.null, "sender", none, [], promptly o, [], []⟩

/-- A flow that means to wait for 300 years, with the outcome still to come. -/
def patient (o : Outcome) : Flow String :=
  ⟨.null, "sender", some (.whole 9467280000), [], [], promptly o, []⟩

/-- A grant of two ASCII tokens. -/
def plain : Grant := ⟨"plain", "signed", .empty, none, by decide, by decide⟩

/-- A grant whose access token is not ASCII. -/
def accented : Grant := ⟨"é", "signed", .empty, none, by decide, by decide⟩

/-- After a success with ASCII tokens the request is sent twice, also when somebody clears the
tokens while the wait is handed over to its thread. -/
theorem plain_takesCourse :
    ((prompt (.success plain)).inThread (.async [.clear] [])).Told fresh (.success plain) ∧
      (guarded.reply 0).isChallenge = .ok true ∧
      ((prompt (.success plain)).inThread (.async [.clear] [])).Undisturbed fresh ∧
      (prompt (.success plain)).TakesCourse fresh (.async [.clear] []) guarded bare ∧
      ((prompt (.success plain)).send (.async [.clear] []) guarded bare
        fresh).1.sent.length = 2 := by
  have hundisturbed : ((prompt (.success plain)).inThread (.async [.clear] [])).Undisturbed fresh :=
    ⟨rfl, .inr rfl, .inr rfl, .inr rfl, .inr rfl, .inl rfl, .inr rfl, trivial⟩
  refine ⟨.inl (List.mem_of_getElem? (i := 7) (by with_unfolding_all rfl)), rfl, hundisturbed, ?_,
    by with_unfolding_all rfl⟩
  exact send_takesCourse true none _ (fun n => ⟨rfl, rfl, rfl⟩) [] (prompt (.success plain))
    (.async [.clear] []) guarded bare hundisturbed

/-- Nobody can wait for 300 years. -/
theorem patient_impasse (o : Outcome) : (patient o).Impasse fresh .overlongWait := by
  have hpositive : (Seconds.whole 9467280000).value.isPositive = true := by decide +kernel
  have hover : Seconds.longest.lt (Seconds.whole 9467280000).value = true := by decide +kernel
  refine .overlong ?_ fun told h => ?_
  · simp only [unwaited?, patient, Option.bind_some, hpositive, hover]
    rfl
  · have hlog : ((patient o).begun fresh).log = [.accepted 0] := rfl
    rw [hlog] at h
    simp at h

/-- A success with an accented token is within the wait, and its header could be sent, but not after
the request was read as ASCII: the request is not sent again and there is no answer. Neither is
there one when the wait is too long to be waited, whatever comes of the attempt. -/
theorem accented_unanswered :
    (prompt (.success accented)).Told fresh (.success accented) ∧
      (guarded.reply 0).isChallenge = .ok true ∧
      (prompt (.success accented)).Undisturbed fresh ∧
      bare.takes accented.header = true ∧
      ((prompt (.success accented)).send .sync guarded bare fresh).1 =
        ⟨[bare.read], .error .unencodable⟩ ∧
      (patient (.failure .abandoned)).Undisturbed fresh ∧
      ((patient (.failure .abandoned)).send .sync guarded bare fresh).1 =
        ⟨[bare.read], .error .overlongWait⟩ := by
  have hworking : fresh.Working := Managed.working_new true none fun n => ⟨rfl, rfl, rfl⟩
  have hpatient : (patient (.failure .abandoned)).Undisturbed fresh :=
    ⟨rfl, .inr rfl, .inr rfl, .inr rfl, .inr rfl, .inl rfl, .inr rfl, trivial⟩
  have hcourse : (patient (.failure .abandoned)).Course fresh guarded bare.read
      ((patient (.failure .abandoned)).send .sync guarded bare fresh) :=
    course hworking hpatient rfl
  refine ⟨.inl (List.mem_of_getElem? (i := 6) (by with_unfolding_all rfl)), rfl,
    ⟨rfl, .inr rfl, .inr rfl, .inr rfl, .inr rfl, .inl rfl, .inr rfl, trivial⟩, rfl,
    by with_unfolding_all rfl, hpatient, ?_⟩
  rw [hcourse.impasse rfl _ (patient_impasse _)]

end Runs

end Flow

end BearerSession
