import SoftRules.Proofs.Encoding.Calls

/-!
Requests to one session that writes one program.

A session is asked for single statements and for whole programs, in any order. A program is encoded
by calls for its statements, up to the first that fails (`Session.encodeAll_prefix`). A statement
that cannot be encoded leaves no trace: without such requests, all others are answered as before.
-/

set_option autoImplicit false

namespace SoftRules

namespace Session

variable {session : Session}

/-- None of the calls for the statements fails. -/
def Succeeds (session : Session) (program : Program) : Prop :=
  ∀ call ∈ session.calls program, call.result.isOk = true

/-- A run has an error exactly if there is a statement left, and then it is the error of the next
call. -/
def StopsAt (session : Session) : Program → Option EncodingError → Prop
  | [], error => error = none
  | statement :: _, error =>
      ∃ fault, Call.result ⟨session, statement⟩ = .error fault ∧ error = some fault

theorem encodeAll_cons_error (program : Program) {statement : Statement} {fault : EncodingError}
    (failed : Call.result ⟨session, statement⟩ = .error fault) :
    (session.encodeAll (statement :: program)).output = [] ∧
      (session.encodeAll (statement :: program)).session = session ∧
        (session.encodeAll (statement :: program)).error = some fault := by
  have reached : (session.encode statement).outcome.result = .error fault :=
    Turn.result_eq_error.mp failed
  simp [encodeAll, reached, session_of_error failed]

theorem encodeAll_cons_ok (program : Program) {statement : Statement}
    (ok : (Call.result ⟨session, statement⟩).isOk = true) :
    (session.encodeAll (statement :: program)).output =
        Call.emitted ⟨session, statement⟩ ++
          ((Call.after ⟨session, statement⟩).encodeAll program).output ∧
      (session.encodeAll (statement :: program)).session =
        ((Call.after ⟨session, statement⟩).encodeAll program).session ∧
      (session.encodeAll (statement :: program)).error =
        ((Call.after ⟨session, statement⟩).encodeAll program).error := by
  obtain ⟨⟨expansion, next⟩, reached⟩ := Except.exists_eq_ok ok
  obtain ⟨emitted, after⟩ := Call.of_ok reached
  obtain ⟨isExpansion, isNext⟩ :
      (session.encode statement).outcome.result = .ok expansion ∧
        (session.encode statement).session = next := Turn.result_eq_ok.mp reached
  rw [emitted, after]
  simp [encodeAll, isExpansion, isNext]

/-- A run adds what the calls in front of the first failing one emit. -/
theorem encodeAll_of_stop {done rest : Program} {error : Option EncodingError}
    (succeed : session.Succeeds done) (stops : (session.afterAll done).StopsAt rest error) :
    (session.encodeAll (done ++ rest)).output = (session.calls done).flatMap Call.emitted ∧
      (session.encodeAll (done ++ rest)).session = session.afterAll done ∧
      (session.encodeAll (done ++ rest)).error = error := by
  induction done generalizing session with
  | nil =>
      cases rest with
      | nil => exact ⟨rfl, rfl, stops.symm⟩
      | cons statement rest =>
          obtain ⟨fault, failed, rfl⟩ := stops
          exact encodeAll_cons_error rest failed
  | cons statement done inductionHypothesis =>
      obtain ⟨ok, others⟩ := List.forall_mem_cons.mp succeed
      obtain ⟨output, after, isError⟩ := encodeAll_cons_ok (done ++ rest) ok
      obtain ⟨restOutput, restAfter, restError⟩ := inductionHypothesis others stops
      rw [List.cons_append, output, after, isError, calls, List.flatMap_cons, afterAll]
      exact ⟨by rw [restOutput], restAfter, restError⟩

theorem exists_stop (session : Session) (program : Program) :
    ∃ done rest error, program = done ++ rest ∧ session.Succeeds done ∧
      (session.afterAll done).StopsAt rest error := by
  induction program generalizing session with
  | nil => exact ⟨[], [], none, rfl, by simp [Succeeds, calls], rfl⟩
  | cons statement program inductionHypothesis =>
      cases reached : Call.result ⟨session, statement⟩ with
      | error fault =>
          exact ⟨[], statement :: program, some fault, rfl, by simp [Succeeds, calls], fault,
            reached, rfl⟩
      | ok outcome =>
          obtain ⟨done, rest, error, rfl, succeed, stops⟩ :=
            inductionHypothesis (Call.after ⟨session, statement⟩)
          refine ⟨statement :: done, rest, error, rfl, List.forall_mem_cons.mpr ⟨?_, succeed⟩, stops⟩
          rw [reached]
          rfl

/-- A program is encoded by calls for its statements, up to the first one that fails. -/
theorem encodeAll_prefix (session : Session) (program : Program) :
    ∃ done rest, program = done ++ rest ∧ session.Succeeds done ∧
      (session.encodeAll program).output = (session.calls done).flatMap Call.emitted ∧
      (session.encodeAll program).session = session.afterAll done ∧
      (session.afterAll done).StopsAt rest (session.encodeAll program).error := by
  obtain ⟨done, rest, error, rfl, succeed, stops⟩ := session.exists_stop program
  obtain ⟨output, after, isError⟩ := encodeAll_of_stop succeed stops
  exact ⟨done, rest, rfl, succeed, output, after, isError.symm ▸ stops⟩

end Session

/-- A session and the program that it has written so far. -/
structure Desk where
  session : Session
  output : Program := []

namespace Desk

/-- What a session is asked to encode. -/
inductive Request where
  | statement (content : Statement)
  | program (content : Program)

/-- What takes the place of a statement, or why nothing does, and the error at which the encoding of
a program stopped. -/
inductive Reply where
  | statement (result : Except EncodingError Expansion)
  | program (error : Option EncodingError)

/-- A single statement cannot be encoded. -/
def Reply.isRefusal : Reply → Bool
  | statement (.error _) => true
  | _ => false

def answer (desk : Desk) : Request → Reply × Desk
  | .statement content =>
      let turn := desk.session.encode content
      match turn.outcome.result with
      | .ok expansion =>
          (.statement (.ok expansion),
            { session := turn.session, output := desk.output ++ expansion.statements })
      | .error error => (.statement (.error error), { desk with session := turn.session })
  | .program content =>
      let run := desk.session.encodeAll content
      (.program run.error, { session := run.session, output := desk.output ++ run.output })

/-- A request and the desk at which it is made. -/
structure Exchange where
  desk : Desk
  request : Request

namespace Exchange

def reply (exchange : Exchange) : Reply := (exchange.desk.answer exchange.request).1

def after (exchange : Exchange) : Desk := (exchange.desk.answer exchange.request).2

/-- What an error leaves behind: nothing of a single statement, and of a program exactly what the
statements in front of the first one that fails add. -/
def IsAtomic (exchange : Exchange) : Prop :=
  match exchange.request with
  | .statement _ => exchange.reply.isRefusal = true → exchange.after = exchange.desk
  | .program content =>
      let session := exchange.desk.session
      ∀ error, exchange.reply = .program (some error) →
        ∃ done failing rest, content = done ++ failing :: rest ∧ session.Succeeds done ∧
          Call.result ⟨session.afterAll done, failing⟩ = .error error ∧
          exchange.after.output = exchange.desk.output ++ (session.calls done).flatMap Call.emitted ∧
          exchange.after.session = session.afterAll done ∧
          exchange.after.session.index =
            session.index + (session.calls done).countP Call.isIndexed

variable {exchange : Exchange}

/-- A refusal leaves the desk as it was. -/
theorem after_of_refusal (refused : exchange.reply.isRefusal = true) :
    exchange.after = exchange.desk := by
  obtain ⟨desk, request⟩ := exchange
  cases request with
  | statement content =>
      cases reached : (desk.session.encode content).outcome.result with
      | ok expansion => simp [reply, answer, reached, Reply.isRefusal] at refused
      | error error =>
          have same := Session.session_of_error (Turn.result_eq_error.mpr reached)
          simp [after, answer, reached, same]
  | program content => simp [reply, answer, Reply.isRefusal] at refused

theorem isAtomic (exchange : Exchange) : exchange.IsAtomic := by
  obtain ⟨desk, request⟩ := exchange
  cases request with
  | statement content => exact after_of_refusal
  | program content =>
      intro error failed
      obtain ⟨done, rest, rfl, succeed, output, after, stops⟩ :=
        desk.session.encodeAll_prefix content
      have isError : (desk.session.encodeAll (done ++ rest)).error = some error := by
        simpa [reply, answer] using failed
      rw [isError] at stops
      cases rest with
      | nil => cases stops
      | cons failing rest =>
          obtain ⟨fault, reached, same⟩ := stops
          cases same
          refine ⟨done, failing, rest, rfl, succeed, reached, ?_, after, ?_⟩
          · exact congrArg (desk.output ++ ·) output
          · exact (congrArg Session.index after).trans Session.afterAll_index

end Exchange

/-- The exchanges for requests that are made one after the other. -/
def exchanges : Desk → List Request → List Exchange
  | _, [] => []
  | desk, request :: requests =>
      ⟨desk, request⟩ :: (Exchange.after ⟨desk, request⟩).exchanges requests

def afterAll : Desk → List Request → Desk
  | desk, [] => desk
  | desk, request :: requests => (Exchange.after ⟨desk, request⟩).afterAll requests

/-- The exchanges without the single statements that cannot be encoded. -/
def answered (desk : Desk) (requests : List Request) : List Exchange :=
  (desk.exchanges requests).filter fun exchange => !exchange.reply.isRefusal

variable {desk : Desk} {request : Request} {requests : List Request}

theorem answered_of_refusal (refused : (Exchange.reply ⟨desk, request⟩).isRefusal = true) :
    desk.answered (request :: requests) = desk.answered requests := by
  rw [answered, exchanges, List.filter_cons_of_neg (by simp [refused]),
    Exchange.after_of_refusal refused, answered]

theorem answered_of_reply (replied : (Exchange.reply ⟨desk, request⟩).isRefusal = false) :
    desk.answered (request :: requests) =
      ⟨desk, request⟩ :: (Exchange.after ⟨desk, request⟩).answered requests := by
  rw [answered, exchanges, List.filter_cons_of_pos (by simp [replied]), answered]

/-- Without the requests that are refused, all others are made at the same desk as before. -/
theorem exchanges_answered (desk : Desk) (requests : List Request) :
    desk.exchanges ((desk.answered requests).map Exchange.request) = desk.answered requests ∧
      desk.afterAll ((desk.answered requests).map Exchange.request) =
        desk.afterAll requests := by
  induction requests generalizing desk with
  | nil => exact ⟨rfl, rfl⟩
  | cons request requests inductionHypothesis =>
      cases refused : (Exchange.reply ⟨desk, request⟩).isRefusal with
      | true =>
          rw [answered_of_refusal refused, afterAll, Exchange.after_of_refusal refused]
          exact inductionHypothesis desk
      | false =>
          rw [answered_of_reply refused, List.map_cons, exchanges, afterAll, afterAll]
          obtain ⟨same, sameEnd⟩ := inductionHypothesis (Exchange.after ⟨desk, request⟩)
          exact ⟨by rw [same], sameEnd⟩

/-- Errors are atomic. A statement that cannot be encoded changes neither the session nor the
output, and a program that fails has added what its statements in front of the failing one add.
Without the statements that are refused, every other request is made at the same desk, so that it
has the same reply, and all of them lead to the same end. -/
theorem errors_are_atomic (desk : Desk) (requests : List Request) :
    (∀ exchange ∈ desk.exchanges requests, exchange.IsAtomic) ∧
      (let others := (desk.answered requests).map Exchange.request
      desk.exchanges others = desk.answered requests ∧
        (desk.exchanges others).map Exchange.reply =
          ((desk.exchanges requests).map Exchange.reply).filter (fun reply => !reply.isRefusal) ∧
        desk.afterAll others = desk.afterAll requests) := by
  obtain ⟨same, sameEnd⟩ := exchanges_answered desk requests
  refine ⟨fun exchange _ => exchange.isAtomic, same, ?_, sameEnd⟩
  rw [same, answered, List.filter_map]
  rfl

end Desk

end SoftRules
