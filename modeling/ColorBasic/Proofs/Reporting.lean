import ColorBasic.Proofs.RoundTrip

/-!
# Computations that report as they go

A computation in steps may fail at any step and adds to the reports that wait, one at a time.  What
was reported before a failure stays.  Such a computation yields an outcome if, whatever waits
already, it has the result of the outcome and adds exactly its reports at the end.
-/

namespace ColorBasic

/-- What a report is about. -/
inductive Topic where
  /-- The whole program. -/
  | program
  /-- The code of a line. -/
  | code
  /-- Line numbers and jumps. -/
  | references

namespace Reports

/-- Reports that are all about one topic. -/
def about (topic : Topic) (diagnostics : List Diagnostic) : Reports :=
  match topic with
  | .program => { program := diagnostics }
  | .code => { code := diagnostics }
  | .references => { references := diagnostics }

theorem append_assoc (first second third : Reports) :
    first ++ second ++ third = first ++ (second ++ third) := by
  show Reports.append (Reports.append first second) third =
    Reports.append first (Reports.append second third)
  simp only [append, List.append_assoc]

@[simp] theorem about_nil (topic : Topic) : about topic [] = {} := by
  cases topic <;> rfl

theorem about_append (topic : Topic) (first second : List Diagnostic) :
    about topic (first ++ second) = about topic first ++ about topic second := by
  cases topic <;> rfl

end Reports

/-- An outcome followed by the outcome of a step that uses its value. -/
def Outcome.bind {α β : Type} (first : Outcome α) (next : α → Outcome β) : Outcome β :=
  match first.result with
  | .ok value => ⟨(next value).result, first.reports ++ (next value).reports⟩
  | .error failure => ⟨.error failure, first.reports⟩

/-- A computation that may fail and that adds to the reports that wait. -/
abbrev Reporting := ExceptT Failure (StateM Reports)

namespace Reporting

variable {α β : Type}

/-- Runs a computation with the given reports waiting. -/
def execute (steps : Reporting α) (pending : Reports) : Except Failure α × Reports :=
  Id.run (StateT.run (ExceptT.run steps) pending)

/-- Adds one report. -/
def report (topic : Topic) (diagnostic : Diagnostic) : Reporting Unit :=
  modify (· ++ Reports.about topic [diagnostic])

/-- Adds one report on a condition. -/
def reportIf (condition : Bool) (topic : Topic) (diagnostic : Diagnostic) : Reporting Unit :=
  if condition then report topic diagnostic else pure ()

/-- Goes on with a value, or fails. -/
def ofResult : Except Failure α → Reporting α
  | .ok value => pure value
  | .error failure => throw failure

/-- A computation that has the result of an outcome and adds its reports, whatever waits. -/
def Yields (steps : Reporting α) (outcome : Outcome α) : Prop :=
  ∀ pending, steps.execute pending = (outcome.result, pending ++ outcome.reports)

theorem execute_bind (steps : Reporting α) (next : α → Reporting β) (pending : Reports) :
    (steps >>= next).execute pending =
      match steps.execute pending with
      | (.ok value, added) => (next value).execute added
      | (.error failure, added) => (.error failure, added) := by
  show Id.run (StateT.run (ExceptT.run (steps >>= next)) pending) = _
  simp only [ExceptT.run_bind, StateT.run_bind, Id.run_bind, execute]
  generalize Id.run (StateT.run (ExceptT.run steps) pending) = first
  obtain ⟨result, added⟩ := first
  cases result <;> rfl

theorem yields_pure (value : α) : Yields (pure value) { result := .ok value } := by
  intro pending
  rw [Reports.append_empty]
  rfl

theorem yields_ofResult (result : Except Failure α) : Yields (ofResult result) { result } := by
  intro pending
  rw [Reports.append_empty]
  cases result <;> rfl

theorem yields_report (topic : Topic) (diagnostic : Diagnostic) :
    Yields (report topic diagnostic) ⟨.ok (), .about topic [diagnostic]⟩ :=
  fun _ => rfl

theorem yields_reportIf (condition : Bool) (topic : Topic) (diagnostic : Diagnostic) :
    Yields (reportIf condition topic diagnostic)
      ⟨.ok (), .about topic (if condition then [diagnostic] else [])⟩ := by
  unfold reportIf
  split
  · exact yields_report topic diagnostic
  · rw [Reports.about_nil]
    exact yields_pure ()

theorem Yields.of_eq {steps : Reporting α} {outcome other : Outcome α} (h : steps.Yields outcome)
    (heq : outcome = other) : steps.Yields other := by
  rwa [← heq]

theorem Yields.bind {steps : Reporting α} {next : α → Reporting β} {first : Outcome α}
    {second : α → Outcome β} (h : steps.Yields first)
    (hnext : ∀ value, (next value).Yields (second value)) :
    (steps >>= next).Yields (first.bind second) := by
  intro pending
  rw [execute_bind, h pending]
  unfold Outcome.bind
  cases first.result with
  | error failure => rfl
  | ok value =>
      dsimp only
      rw [hnext value, Reports.append_assoc]

theorem Yields.bind_ok {steps : Reporting α} {next : α → Reporting β} {value : α}
    {earlier : Reports} {second : Outcome β} (h : steps.Yields ⟨.ok value, earlier⟩)
    (hnext : (next value).Yields second) :
    (steps >>= next).Yields ⟨second.result, earlier ++ second.reports⟩ := by
  intro pending
  rw [execute_bind, h pending]
  dsimp only
  rw [hnext, Reports.append_assoc]

theorem Yields.andThen {steps : Reporting α} {outcome : Outcome α} (h : steps.Yields outcome)
    (f : α → Except Failure β) :
    (steps >>= fun value => ofResult (f value)).Yields (outcome.andThen f) := by
  refine (h.bind fun value => yields_ofResult (f value)).of_eq ?_
  unfold Outcome.bind Outcome.andThen
  cases outcome.result <;> simp [Except.bind]

theorem Yields.bind_pure {steps : Reporting α} {outcome : Outcome α} (h : steps.Yields outcome)
    (f : α → β) : (steps >>= fun value => pure (f value)).Yields (outcome.map f) := by
  refine (h.bind fun value => yields_pure (f value)).of_eq ?_
  unfold Outcome.bind Outcome.map
  cases outcome.result <;> simp [Except.map]

theorem Yields.map {steps : Reporting α} {outcome : Outcome α} (h : steps.Yields outcome)
    (f : α → β) : (f <$> steps).Yields (outcome.map f) := by
  rw [← bind_pure_comp]
  exact h.bind_pure f

section Loops

/-- The reports of a loop that ends with the first step that fails. -/
def reportsThrough (result : α → Except Failure β) (reports : α → List Diagnostic) :
    List α → List Diagnostic
  | [] => []
  | x :: xs =>
    match result x with
    | .ok _ => reports x ++ reportsThrough result reports xs
    | .error _ => reports x

variable {topic : Topic} {steps : α → Reporting β} {result : α → Except Failure β}
  {reports : α → List Diagnostic}

/-- A loop that takes one element after another. -/
theorem yields_mapM (h : ∀ x, (steps x).Yields ⟨result x, .about topic (reports x)⟩)
    (xs : List α) :
    (xs.mapM steps).Yields ⟨xs.mapM result, .about topic (reportsThrough result reports xs)⟩ := by
  induction xs with
  | nil =>
      rw [reportsThrough, Reports.about_nil]
      exact yields_pure []
  | cons x xs ih =>
      rw [List.mapM_cons]
      refine ((h x).bind fun y => ih.bind fun ys => yields_pure (y :: ys)).of_eq ?_
      rw [List.mapM_cons, reportsThrough]
      -- A failure ends the loop with the reports up to it.
      cases result x with
      | error failure => rfl
      | ok y =>
          dsimp only
          rw [Reports.about_append]
          cases xs.mapM result <;> simp only [Outcome.bind, Reports.append_empty] <;> rfl

/-- A loop in which no step fails. -/
theorem yields_mapM_ok {value : α → β}
    (h : ∀ x, (steps x).Yields ⟨.ok (value x), .about topic (reports x)⟩) (xs : List α) :
    (xs.mapM steps).Yields ⟨.ok (xs.map value), .about topic (xs.flatMap reports)⟩ := by
  refine (yields_mapM h xs).of_eq ?_
  have hreports : reportsThrough (fun x => (Except.ok (value x) : Except Failure β)) reports xs =
      xs.flatMap reports := by
    induction xs with
    | nil => rfl
    | cons x xs ih => rw [reportsThrough, List.flatMap_cons, ← ih]
  have hresult : (xs.mapM fun x => (Except.ok (value x) : Except Failure β)) =
      .ok (xs.map value) := by
    rw [mapM_eq_ok_iff, List.forall₂_map_right_iff, List.forall₂_same]
    exact fun _ _ => rfl
  rw [hresult, hreports]

/-- A loop that carries a state, in which no step fails. -/
theorem yields_foldlM_ok {σ : Type} {steps : σ → α → Reporting σ} {next : σ → α → σ}
    (h : ∀ state x, (steps state x).Yields ⟨.ok (next state x), .about topic (reports x)⟩)
    (xs : List α) (state : σ) :
    (xs.foldlM steps state).Yields
      ⟨.ok (xs.foldl next state), .about topic (xs.flatMap reports)⟩ := by
  induction xs generalizing state with
  | nil =>
      rw [List.flatMap_nil, Reports.about_nil]
      exact yields_pure state
  | cons x xs ih =>
      rw [List.foldlM_cons]
      refine ((h state x).bind ih).of_eq ?_
      rw [List.flatMap_cons, Reports.about_append]
      rfl

end Loops

end Reporting
end ColorBasic
