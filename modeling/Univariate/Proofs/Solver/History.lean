import Mathlib.Data.List.Induction
import Univariate.Solver

namespace Univariate.Solver

inductive Call where
  | configure (settings : Settings)
  | setCoefficients (coefficients : List Float)
  | setEquation (text : String)
  | solve (running? : Option Logger) (started : Except SolverError Logger.Start)

def step (s : Solver) : Call → Solver × Except SolverError (Option Solution)
  | .configure settings => (s.configure settings, .ok none)
  | .setCoefficients coefficients => (s.setCoefficients coefficients, .ok none)
  | .setEquation text =>
    match s.setEquation text with
    | .ok s' => (s', .ok none)
    | .error e => (s, .error e)
  | .solve running? started =>
    let attempt := s.solveLogged running? started
    (attempt.solver, attempt.outcome.map some)

def after (calls : List Call) : Solver := calls.foldl (fun s call => (s.step call).1) {}

def Solves (s : Solver) (call : Call) : Prop := ∃ solution, (s.step call).2 = .ok (some solution)

/-- The settings that were in force at the last solve of a history that succeeded. -/
inductive SolvedUnder : List Call → Settings → Prop
  | now {calls : List Call} {call : Call} : Solves (after calls) call →
      SolvedUnder (calls ++ [call]) (after calls).settings
  | before {calls : List Call} {call : Call} {settings : Settings} :
      SolvedUnder calls settings → ¬ Solves (after calls) call →
      SolvedUnder (calls ++ [call]) settings

variable {s s' : Solver} {call : Call} {calls : List Call}

theorem after_concat (calls : List Call) (call : Call) :
    after (calls ++ [call]) = ((after calls).step call).1 := by
  simp [after]

theorem setEquation_eq_ok_iff {text : String} : s.setEquation text = .ok s' ↔
    ∃ parsed, Equation.parse unknown text.toList = .ok parsed ∧
      s' = { s with
        coefficients := parsed.coefficients, equation := some text, solution := none } := by
  cases h : Equation.parse unknown text.toList <;> simp [setEquation, h, eq_comm]

theorem solveLogged_cases (s : Solver) (running? : Option Logger)
    (started : Except SolverError Logger.Start) :
    (∃ e logFile, (s.solveLogged running? started).outcome = .error e ∧
      (s.solveLogged running? started).solver = { s with logFile }) ∨
    ∃ solution logFile, s.settings.validate = .ok () ∧
      Solution.ofCoefficients s.settings s.coefficients = .ok solution ∧
      (s.solveLogged running? started).outcome = .ok solution ∧
      (s.solveLogged running? started).solver = { s with logFile, solution := some solution } := by
  cases hvalid : s.settings.validate with
  | error e => exact .inl ⟨e, s.logFile, by simp [solveLogged, hvalid]⟩
  | ok =>
    cases started with
    | error e => exact .inl ⟨e, s.logFile, by simp [solveLogged, hvalid]⟩
    | ok start =>
      cases hfound : Solution.ofCoefficients s.settings s.coefficients with
      | error e => exact .inl ⟨e, start.file, by simp [solveLogged, hvalid, hfound]⟩
      | ok solution =>
        exact .inr ⟨solution, start.file, rfl, rfl, by simp [solveLogged, hvalid, hfound]⟩

theorem step_cases (s : Solver) (call : Call) :
    (∃ e logFile, (s.step call).2 = .error e ∧ (s.step call).1 = { s with logFile }) ∨
    (s.step call).2 = .ok none ∧
      ((∃ settings, (s.step call).1 = { s with settings }) ∨
        ∃ coefficients equation,
          (s.step call).1 = { s with coefficients, equation, solution := none } ∧
          ∀ text, equation = some text →
            ∃ parsed, Equation.parse unknown text.toList = .ok parsed ∧
              parsed.coefficients = coefficients) ∨
    ∃ solution logFile, s.settings.validate = .ok () ∧
      Solution.ofCoefficients s.settings s.coefficients = .ok solution ∧
      (s.step call).2 = .ok (some solution) ∧
      (s.step call).1 = { s with logFile, solution := some solution } := by
  cases call with
  | configure settings => exact .inr (.inl ⟨rfl, .inl ⟨settings, rfl⟩⟩)
  | setCoefficients coefficients =>
    exact .inr (.inl ⟨rfl, .inr ⟨coefficients, none, rfl, nofun⟩⟩)
  | setEquation text =>
    cases h : s.setEquation text with
    | error e => exact .inl ⟨e, s.logFile, by simp [step, h]⟩
    | ok s' =>
      obtain ⟨parsed, hparse, rfl⟩ := setEquation_eq_ok_iff.mp h
      refine .inr (.inl ⟨by simp [step, h],
        .inr ⟨parsed.coefficients, some text, by simp [step, h], ?_⟩⟩)
      rintro text' ⟨⟩
      exact ⟨parsed, hparse, rfl⟩
  | solve running? started =>
    rcases s.solveLogged_cases running? started with
      ⟨e, logFile, houtcome, hsolver⟩ | ⟨solution, logFile, hvalid, hfound, houtcome, hsolver⟩
    · exact .inl ⟨e, logFile, by simp [step, houtcome, Except.map], hsolver⟩
    · exact .inr (.inr ⟨solution, logFile, hvalid, hfound, by simp [step, houtcome, Except.map],
        hsolver⟩)

structure Faithful (calls : List Call) (s : Solver) : Prop where
  equation : ∀ text, s.equation = some text →
    ∃ parsed, Equation.parse unknown text.toList = .ok parsed ∧
      parsed.coefficients = s.coefficients
  solution : ∀ solution, s.solution = some solution →
    ∃ settings, SolvedUnder calls settings ∧ settings.validate = .ok () ∧
      Solution.ofCoefficients settings s.coefficients = .ok solution

theorem Faithful.step (h : Faithful calls (after calls)) (call : Call) :
    Faithful (calls ++ [call]) ((after calls).step call).1 := by
  have hkeep : ¬ Solves (after calls) call → ∀ solution, (after calls).solution = some solution →
      ∃ settings, SolvedUnder (calls ++ [call]) settings ∧ settings.validate = .ok () ∧
        Solution.ofCoefficients settings (after calls).coefficients = .ok solution := by
    intro hunsolved solution hsolution
    obtain ⟨settings, hunder, hfound⟩ := h.solution solution hsolution
    exact ⟨settings, hunder.before hunsolved, hfound⟩
  rcases (after calls).step_cases call with ⟨e, logFile, hanswer, hs⟩ | ⟨hanswer, hset⟩ |
    ⟨solution, logFile, hvalid, hfound, hanswer, hs⟩
  · rw [hs]
    exact ⟨h.equation, hkeep (by simp [Solves, hanswer])⟩
  · rcases hset with ⟨settings, hs⟩ | ⟨coefficients, equation, hs, hequation⟩
    · rw [hs]
      exact ⟨h.equation, hkeep (by simp [Solves, hanswer])⟩
    · rw [hs]
      exact ⟨hequation, nofun⟩
  · rw [hs]
    refine ⟨h.equation, ?_⟩
    rintro solution' ⟨⟩
    exact ⟨_, .now ⟨solution, hanswer⟩, hvalid, hfound⟩

theorem faithful_after (calls : List Call) : Faithful calls (after calls) := by
  induction calls using List.reverseRecOn with
  | nil => exact ⟨nofun, nofun⟩
  | append_singleton calls call ih =>
    rw [after_concat]
    exact ih.step call

theorem step_of_error {e : SolverError} (h : (s.step call).2 = .error e) :
    ∃ logFile, (s.step call).1 = { s with logFile } := by
  rcases s.step_cases call with ⟨_, logFile, -, hs⟩ | ⟨hanswer, -⟩ | ⟨_, _, -, -, hanswer, -⟩
  · exact ⟨logFile, hs⟩
  · cases h.symm.trans hanswer
  · cases h.symm.trans hanswer

theorem solution_of_answer {solution : Solution} (h : (s.step call).2 = .ok (some solution)) :
    (s.step call).1.solution = some solution := by
  rcases s.step_cases call with ⟨_, _, hanswer, -⟩ | ⟨hanswer, -⟩ | ⟨_, _, -, -, hanswer, hs⟩
  · cases h.symm.trans hanswer
  · cases h.symm.trans hanswer
  · cases h.symm.trans hanswer
    rw [hs]

/-- After every history the equation reads as the coefficients, the solution is that of the
coefficients under the settings of the last solve that succeeded, a solve shows what it found, and
a call that fails changes nothing but the log file. -/
theorem after_consistent (calls : List Call) :
    (∀ text, (after calls).equation = some text →
      ∃ parsed, Equation.parse unknown text.toList = .ok parsed ∧
        parsed.coefficients = (after calls).coefficients) ∧
    (∀ solution, (after calls).solution = some solution →
      ∃ settings, SolvedUnder calls settings ∧ settings.validate = .ok () ∧
        Solution.ofCoefficients settings (after calls).coefficients = .ok solution) ∧
    ∀ call,
      (∀ solution, ((after calls).step call).2 = .ok (some solution) →
        ((after calls).step call).1.solution = some solution) ∧
      ∀ e, ((after calls).step call).2 = .error e →
        ∃ logFile, ((after calls).step call).1 = { after calls with logFile } := by
  obtain ⟨hequation, hsolution⟩ := faithful_after calls
  refine ⟨hequation, hsolution, fun call => ⟨fun solution h => ?_, fun e h => ?_⟩⟩
  · exact solution_of_answer h
  · exact step_of_error h

theorem after_consistent_failures : ∃ calls solution settings,
    calls = [.setEquation "x-2=0", .solve none (.ok ⟨none, false, []⟩), .setEquation "2y=0",
      .configure { epsilon := 0 }, .solve none (.ok ⟨none, false, []⟩)] ∧
    (after calls).solution = some solution ∧
    SolvedUnder calls settings ∧ settings.validate = .ok () ∧
    Solution.ofCoefficients settings (after calls).coefficients = .ok solution := by
  have hshown : (after [.setEquation "x-2=0", .solve none (.ok ⟨none, false, []⟩),
      .setEquation "2y=0", .configure { epsilon := 0 },
      .solve none (.ok ⟨none, false, []⟩)]).solution.isSome = true := by decide +kernel
  obtain ⟨solution, hsolution⟩ := Option.isSome_iff_exists.mp hshown
  obtain ⟨settings, hsettings⟩ := (after_consistent _).2.1 solution hsolution
  exact ⟨_, solution, settings, rfl, hsolution, hsettings⟩

end Univariate.Solver
