import ColorBasic.Proofs.StepwiseConversion

/-!
# Sessions and their history

Whatever was done with a session, failed requests included, its next answer is that of a new session
with the same table and program start.  History shows in the waiting reports alone, and there
nothing gets lost or is repeated: what was taken and what still waits are the reports of all
requests.
-/

namespace ColorBasic

/-- What can be done with a session. -/
inductive Operation where
  /-- A request is answered. -/
  | request (request : Request)
  /-- The program start is set. -/
  | setProgramStart (start : UInt16)
  /-- The waiting reports are taken. -/
  | takeReports
  deriving DecidableEq, Repr

/-- What an operation gives back. -/
inductive Reply where
  /-- The result of a request. -/
  | result (result : Except Failure Answer)
  /-- Nothing. -/
  | done
  /-- The reports that were taken. -/
  | taken (reports : List Diagnostic)

/-- The program start after an operation. -/
def Operation.startAfter (start : UInt16) : Operation → UInt16
  | .setProgramStart next => next
  | _ => start

/-- The reports that a reply hands over. -/
def Reply.reports : Reply → List Diagnostic
  | .taken reports => reports
  | _ => []

theorem Reports.all_append_perm (first second : Reports) :
    (first ++ second).all.Perm (first.all ++ second.all) := by
  show ((first.program ++ second.program) ++ (first.code ++ second.code) ++
    (first.references ++ second.references)).Perm _
  rw [List.perm_iff_count]
  intro diagnostic
  simp only [all, List.count_append]
  omega

namespace Session

/-- A session in which no reports wait. -/
def fresh (table : TokenTable) (programStart : UInt16) : Session := ⟨table, programStart, {}⟩

/-- Answers a request step by step, adding each report to those that wait. -/
def execute (session : Session) (request : Request) : Except Failure Answer × Session :=
  let (result, pending) :=
    (Reporting.answer session.table session.programStart request).execute session.pending
  (result, { session with pending })

/-- Carries out an operation. -/
def apply (session : Session) : Operation → Reply × Session
  | .request request =>
    let (result, next) := session.perform request
    (.result result, next)
  | .setProgramStart start => (.done, session.setProgramStart start)
  | .takeReports =>
    let (reports, next) := session.takeReports
    (.taken reports, next)

/-- Carries out operations one after another. -/
def run (session : Session) : List Operation → List Reply × Session
  | [] => ([], session)
  | operation :: later =>
    let (reply, next) := session.apply operation
    let (replies, last) := next.run later
    (reply :: replies, last)

/-- The reports of all operations of a history, each made by a fresh session. -/
def reported (table : TokenTable) (start : UInt16) : List Operation → List Diagnostic
  | [] => []
  | operation :: later =>
    ((fresh table start).apply operation).2.pending.all ++
      reported table (operation.startAfter start) later

/-- Adding reports one at a time is as good as adding them at the end. -/
theorem execute_eq_perform (session : Session) (request : Request) :
    session.execute request = session.perform request := by
  unfold execute perform
  rw [Reporting.yields_answer session.table session.programStart request session.pending]

/-- A request is answered as by a fresh session, and its reports are added to each list. -/
theorem perform_eq_fresh (session : Session) (request : Request) :
    session.perform request =
      (((fresh session.table session.programStart).perform request).1,
        { session with
          pending := session.pending ++
            ((fresh session.table session.programStart).perform request).2.pending }) :=
  rfl

section Run

variable (session : Session)

theorem apply_table (operation : Operation) : (session.apply operation).2.table = session.table := by
  cases operation <;> rfl

theorem apply_programStart (operation : Operation) :
    (session.apply operation).2.programStart = operation.startAfter session.programStart := by
  cases operation <;> rfl

/-- An operation hands over or keeps what waited before and what it reports itself. -/
theorem apply_reports_perm (operation : Operation) :
    ((session.apply operation).1.reports ++ (session.apply operation).2.pending.all).Perm
      (session.pending.all ++
        ((fresh session.table session.programStart).apply operation).2.pending.all) := by
  cases operation with
  | request request => exact Reports.all_append_perm session.pending _
  | setProgramStart start =>
      show session.pending.all.Perm (session.pending.all ++ [])
      rw [List.append_nil]
  | takeReports => exact .refl _

theorem run_table (history : List Operation) : (session.run history).2.table = session.table := by
  induction history generalizing session with
  | nil => rfl
  | cons operation later ih =>
      show ((session.apply operation).2.run later).2.table = session.table
      rw [ih, apply_table]

theorem run_programStart (history : List Operation) :
    (session.run history).2.programStart =
      history.foldl Operation.startAfter session.programStart := by
  induction history generalizing session with
  | nil => rfl
  | cons operation later ih =>
      show ((session.apply operation).2.run later).2.programStart = _
      rw [ih, apply_programStart, List.foldl_cons]

/-- Over a whole history no report is lost or repeated. -/
theorem run_reports_perm (history : List Operation) :
    ((session.run history).1.flatMap Reply.reports ++ (session.run history).2.pending.all).Perm
      (session.pending.all ++ reported session.table session.programStart history) := by
  induction history generalizing session with
  | nil =>
      show session.pending.all.Perm (session.pending.all ++ [])
      rw [List.append_nil]
  | cons operation later ih =>
      have hstep := session.apply_reports_perm operation
      have hlater := ih (session.apply operation).2
      rw [apply_table, apply_programStart] at hlater
      -- The two permutations are added up by counting each report.
      rw [List.perm_iff_count] at hstep hlater ⊢
      intro diagnostic
      have hstepCount := hstep diagnostic
      have hlaterCount := hlater diagnostic
      simp only [run, reported, List.flatMap_cons, List.count_append] at hstepCount hlaterCount ⊢
      omega

end Run

/-- After any history a session answers every request as a fresh session with its table and program
start, also step by step, and adds the reports of that answer to each list.  Only setting the
program start changes it, what was taken and what waits are all reports of the history, and taking
reports leaves a fresh session. -/
theorem history_leaves_only_reports (table : TokenTable) (start : UInt16)
    (history : List Operation) (replies : List Reply) (session : Session)
    (h : (fresh table start).run history = (replies, session)) :
    (session.table = table ∧ session.machine = table.machine ∧
      session.programStart = history.foldl Operation.startAfter start) ∧
    (replies.flatMap Reply.reports ++ session.pending.all).Perm (reported table start history) ∧
    (∀ request answered renewed,
      (fresh table session.programStart).perform request = (answered, renewed) →
        session.execute request = session.perform request ∧
          session.perform request =
            (answered, ⟨table, session.programStart,
              ⟨session.pending.program ++ renewed.pending.program,
                session.pending.code ++ renewed.pending.code,
                session.pending.references ++ renewed.pending.references⟩⟩)) ∧
    (∀ address, session.setProgramStart address = ⟨table, address, session.pending⟩) ∧
    session.takeReports =
      (session.pending.program ++ session.pending.code ++ session.pending.references,
        fresh table session.programStart) := by
  have htable := run_table (fresh table start) history
  have hstart := run_programStart (fresh table start) history
  have hreports := run_reports_perm (fresh table start) history
  rw [h] at htable hstart hreports
  obtain ⟨_, programStart, pending⟩ := session
  obtain rfl : _ = table := htable
  refine ⟨⟨rfl, rfl, hstart⟩, hreports, ?_, fun _ => rfl, rfl⟩
  intro request answered renewed hrenewed
  refine ⟨execute_eq_perform _ request, ?_⟩
  rw [perform_eq_fresh, hrenewed]
  rfl

/-- A history with a request that fails in its third line, after a character without a byte and a
repeated number. -/
def interruptedHistory : List Operation :=
  [.request (.arrange "10 ☺\n10 B\n20".toList), .takeReports, .setProgramStart 0x2601,
    .request (.tokenize "☹".toList)]

theorem history_leaves_only_reports_interrupted :
    ∃ replies session,
      (fresh Machine.dragon32.table 0x1E01).run interruptedHistory = (replies, session) ∧
        replies.flatMap Reply.reports = [.unmappedChar '☺'] ∧
          session.perform (.detokenize [0xFF, 0xF7]) =
            (.ok (.text []), ⟨Machine.dragon32.table, 0x2601,
              ⟨[], [.unmappedChar '☹', .unknownToken 0xFFF7], []⟩⟩) := by
  have hstart : ((fresh Machine.dragon32.table 0x1E01).run interruptedHistory).2.programStart =
      0x2601 := rfl
  have htaken : ((fresh Machine.dragon32.table 0x1E01).run interruptedHistory).1.flatMap
      Reply.reports = [.unmappedChar '☺'] := by decide +kernel
  have hpending : ((fresh Machine.dragon32.table 0x1E01).run interruptedHistory).2.pending =
      { code := [.unmappedChar '☹'] } := by decide +kernel
  have hrenewed : (fresh Machine.dragon32.table 0x2601).perform (.detokenize [0xFF, 0xF7]) =
      (.ok (.text []), ⟨Machine.dragon32.table, 0x2601, { code := [.unknownToken 0xFFF7] }⟩) := rfl
  obtain ⟨replies, session, hrun⟩ : ∃ replies session,
      (fresh Machine.dragon32.table 0x1E01).run interruptedHistory = (replies, session) :=
    ⟨_, _, rfl⟩
  rw [hrun] at hstart htaken hpending
  obtain ⟨-, -, hrequest, -⟩ := history_leaves_only_reports _ _ _ _ _ hrun
  rw [hstart, hpending] at hrequest
  exact ⟨replies, session, hrun, htaken, (hrequest _ _ _ hrenewed).2⟩

end Session
end ColorBasic
