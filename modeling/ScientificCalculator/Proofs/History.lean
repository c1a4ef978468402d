import ScientificCalculator.Proofs.Chaining

/-!
The history of a session. A calculation that fails leaves no trace, so a run without its failed
calculations gives the same results in the same sessions; one that succeeds puts its value into the
answer, and into the memory what the leading memory key says.
-/

namespace ScientificCalculator

/-- The memory key that comes first among the identifiers that name a key. -/
def leadingMemoryKey (identifiers : List String) : Option MemoryOperation :=
  match identifiers.findSome? Key.ofIdentifier? with
  | some (.memory operation) => some operation
  | _ => none

theorem splitMemoryOperation_assemble (registers : Registers) (identifiers : List String) :
    (splitMemoryOperation (assemble registers identifiers)).1 = leadingMemoryKey identifiers := by
  induction identifiers with
  | nil => rfl
  | cons identifier rest ih =>
    cases named : Key.ofIdentifier? identifier with
    | none =>
      have skipped : Token.ofIdentifier? registers identifier = none := by
        rw [Token.ofIdentifier?, named]
        rfl
      rw [assemble, List.filterMap_cons_none skipped, leadingMemoryKey, List.findSome?_cons, named]
      exact ih
    | some key =>
      have made : Token.ofIdentifier? registers identifier = some (key.token registers) := by
        rw [Token.ofIdentifier?, named]
        rfl
      rw [assemble, List.filterMap_cons_some made, leadingMemoryKey, List.findSome?_cons, named]
      cases key <;> rfl

namespace Session

/-- What a request answers: a result or an error for a calculation, nothing for a setting. -/
def answer? (session : Session) : Request → Option (Except Error Calculation)
  | .calculate identifiers => some (session.calculate identifiers).1
  | _ => none

/-- A request of a run, with its answer and the sessions before and after it. -/
structure Step where
  before : Session
  request : Request
  answer : Option (Except Error Calculation)
  after : Session

def Step.failed (step : Step) : Bool :=
  match step.answer with
  | some (.error _) => true
  | _ => false

def step (session : Session) (request : Request) : Step :=
  ⟨session, request, session.answer? request, session.after request⟩

/-- The steps of a run, in their order. -/
def history (session : Session) : List Request → List Step
  | [] => []
  | request :: rest => session.step request :: history (session.after request) rest

/-- The requests of a run, less the calculations that fail in it. -/
def withoutFailures (session : Session) (requests : List Request) : List Request :=
  ((session.history requests).filter fun step => !step.failed).map Step.request

variable {session : Session} {request : Request} {calculation : Calculation}

theorem after_of_failed (failed : (session.step request).failed = true) :
    session.after request = session := by
  cases request with
  | calculate identifiers =>
    cases found : (session.calculate identifiers).1 with
    | error error => rw [after, calculate_of_error found]
    | ok result =>
      rw [Step.failed, step, answer?, found] at failed
      cases failed
  | _ => cases failed

theorem withoutFailures_cons_of_failed (failed : (session.step request).failed = true)
    (rest : List Request) :
    session.withoutFailures (request :: rest) = session.withoutFailures rest := by
  rw [withoutFailures, history, List.filter_cons_of_neg (by simp [failed]),
    after_of_failed failed, withoutFailures]

theorem withoutFailures_cons_of_not (kept : ¬ (session.step request).failed = true)
    (rest : List Request) :
    session.withoutFailures (request :: rest) =
      request :: (session.after request).withoutFailures rest := by
  rw [withoutFailures, history, List.filter_cons_of_pos (by simp [kept])]
  rfl

theorem history_withoutFailures (session : Session) (requests : List Request) :
    session.history (session.withoutFailures requests) =
      (session.history requests).filter fun step => !step.failed := by
  induction requests generalizing session with
  | nil => rfl
  | cons request rest ih =>
    rw [history]
    by_cases failed : (session.step request).failed = true
    · rw [withoutFailures_cons_of_failed failed, ih, List.filter_cons_of_neg (by simp [failed]),
        after_of_failed failed]
    · rw [withoutFailures_cons_of_not failed, history, ih, List.filter_cons_of_pos (by simp [failed])]

theorem foldl_withoutFailures (session : Session) (requests : List Request) :
    (session.withoutFailures requests).foldl after session = requests.foldl after session := by
  induction requests generalizing session with
  | nil => rfl
  | cons request rest ih =>
    rw [List.foldl_cons]
    by_cases failed : (session.step request).failed = true
    · rw [withoutFailures_cons_of_failed failed, ih, after_of_failed failed]
    · rw [withoutFailures_cons_of_not failed, List.foldl_cons, ih]

theorem eq_step_of_mem_history {requests : List Request} {step : Step}
    (member : step ∈ session.history requests) : step = step.before.step step.request := by
  induction requests generalizing session with
  | nil => cases member
  | cons request rest ih =>
    rcases List.mem_cons.1 member with rfl | later
    · rfl
    · exact ih later

/-- A calculation that succeeds changes the registers, and nothing else. -/
theorem after_of_answer (answered : session.answer? request = some (.ok calculation)) :
    ∃ identifiers, request = .calculate identifiers ∧ session.after request =
      { session with
        registers := session.registers.record (leadingMemoryKey identifiers) calculation.value } := by
  cases request with
  | calculate identifiers =>
    refine ⟨identifiers, rfl, ?_⟩
    have succeeded : session.calculate identifiers =
        (.ok calculation, (session.calculate identifiers).2) :=
      Prod.ext (Option.some.inj answered) rfl
    rw [after, (of_calculate_eq_ok succeeded).2, splitMemoryOperation_assemble]
  | _ => cases answered

/-- A run may be repeated without the calculations that fail in it: all other requests find the
session that they found before and answer the same, and the session at the end is the same. After a
calculation that succeeds, the answer is its value, the memory what the leading memory key makes of
it, and the settings are as before. Keys sent as one text (`Request.sent`) are calculated as their
identifiers. -/
theorem failures_leave_no_trace (session : Session) (requests : List Request) :
    session.history (session.withoutFailures requests) =
        (session.history requests).filter (fun step => !step.failed) ∧
      (session.withoutFailures requests).foldl after session = requests.foldl after session ∧
      ∀ step ∈ session.history requests, ∀ calculation, step.answer = some (.ok calculation) →
        ∃ identifiers, step.request = .calculate identifiers ∧
          step.after.registers.answer = calculation.value ∧
          step.after.registers.memory =
            (match leadingMemoryKey identifiers with
            | some .store => calculation.value
            | some .add => step.before.registers.memory + calculation.value
            | some .subtract => step.before.registers.memory - calculation.value
            | some .clear => Decimal.zero
            | none => step.before.registers.memory) ∧
          step.after.unit = step.before.unit ∧ step.after.width = step.before.width := by
  refine ⟨history_withoutFailures session requests, foldl_withoutFailures session requests, ?_⟩
  intro step member calculation answered
  rw [eq_step_of_mem_history member] at answered ⊢
  obtain ⟨identifiers, request, changed⟩ := after_of_answer answered
  refine ⟨identifiers, request, ?_⟩
  change (step.before.after step.request).registers.answer = _ ∧
    (step.before.after step.request).registers.memory = _ ∧
    (step.before.after step.request).unit = _ ∧ (step.before.after step.request).width = _
  rw [changed]
  refine ⟨rfl, ?_, rfl, rfl⟩
  cases leadingMemoryKey identifiers with
  | none => rfl
  | some operation => cases operation <;> rfl

/-- A run with a division by zero and with a result that does not fit. -/
def interruptedRun : List Request :=
  [.calculate ["STO", "#7"], .calculate ["M+", "#1", "/", "#0"], .setWidth 3,
    .calculate ["STO", "#1", "E", "#9", "#9"], .calculate ["M-", "ANS"]]

/-- The memory keys of the failed calculations are forgotten with them. -/
theorem failures_leave_no_trace_of_memory_keys :
    initial.withoutFailures interruptedRun =
        [.calculate ["STO", "#7"], .setWidth 3, .calculate ["M-", "ANS"]] ∧
      [.calculate ["STO", "#7"], .setWidth 3, .calculate ["M-", "ANS"]].foldl after initial =
        interruptedRun.foldl after initial ∧
      ∃ step ∈ initial.history interruptedRun,
        step.answer = some (.ok ⟨⟨7, 0⟩, ['7', '.', '0'], some .store, []⟩) ∧
          step.after.registers.answer = ⟨7, 0⟩ := by
  have kept : initial.withoutFailures interruptedRun =
      [.calculate ["STO", "#7"], .setWidth 3, .calculate ["M-", "ANS"]] := by
    with_unfolding_all rfl
  have stored : (initial.step (.calculate ["STO", "#7"])).answer =
      some (.ok ⟨⟨7, 0⟩, ['7', '.', '0'], some .store, []⟩) := by
    with_unfolding_all rfl
  obtain ⟨-, last, recorded⟩ := failures_leave_no_trace initial interruptedRun
  obtain ⟨-, -, answer, -⟩ := recorded _ List.mem_cons_self _ stored
  rw [kept] at last
  exact ⟨kept, last, _, List.mem_cons_self, stored, answer⟩

end Session

end ScientificCalculator
