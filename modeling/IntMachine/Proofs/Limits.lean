import IntMachine.Proofs.Dialogue
import IntMachine.Proofs.Requests
import Mathlib.Algebra.Group.Action.Defs
import Mathlib.Algebra.Order.BigOperators.Group.List
import Mathlib.Algebra.Order.Group.Nat
/-!
# The limit of a dialogue

The limit of the settings holds for each run by itself, and every answer to a
prompt starts a run that has the whole limit before it. So the limit bounds what
is executed on the whole where all input is given beforehand, and only what is
executed between two prompts where it is asked for (`limit_bounds_each_run`).
-/

namespace IntMachine.Runner

/-- How many instructions a run has executed. -/
def Round.steps (x : Round) : Nat := (instructionsOf x.ran.events).length

/-- How many instructions have been executed at the end of a dialogue; none where
no program was loaded. -/
def executed (session? : Option Session) : Nat :=
  match session? with
  | some session => session.machine.executed
  | none => 0

variable {fuel N : Nat} {settings : Settings} {opened : Program.Opened}
variable {mode : RunMode} {session : Session} {said : Said} {rounds : List Round}
variable {printed : Transcript} {code : Nat} {session? : Option Session} {x : Round}
variable {ran : Outcome Machine MachineError RunEnd}

/-! ## One run -/

theorem executed_of_run (h : session.machine.run fuel mode session.limit = some ran) :
    ran.after.executed = session.machine.executed + Round.steps ⟨session.machine, ran⟩ := by
  obtain ⟨is, hfollows, rfl, -⟩ := Machine.run_follows h
  exact hfollows.executed

/-- **A run stays within the limit**, and one that is stopped by the limit has
executed as many instructions as it says. -/
theorem Dialogue.steps_le (h : Dialogue fuel settings opened rounds said)
    (hlimit : settings.limit = some (N : Int)) (hx : x ∈ rounds) :
    x.steps ≤ N ∧ ∀ n, x.ran.result = .ok ⟨.stepLimit, n⟩ → n = N ∧ x.steps = N := by
  obtain ⟨hactive, mode, hran⟩ := h.ran x hx
  rw [hlimit] at hran
  obtain ⟨hle, hcut⟩ := Machine.run_within hactive hran
  refine ⟨hle, fun n hn => ?_⟩
  obtain ⟨is, -, hevents, hsteps⟩ := Machine.run_follows hran
  obtain rfl := hcut n hn
  refine ⟨rfl, ?_⟩
  rw [Round.steps, hevents]
  exact (hsteps _ hn).symm

/-! ## Accounts of what is executed -/

/-- No line says that the limit was reached. -/
def Unlimited (t : Transcript) : Prop := ∀ n pc, Line.limitReached n pc ∉ t

theorem unlimited_report (debug : Bool) (events : Array Event) :
    Unlimited (report debug events) := by
  intro n pc hline
  obtain ⟨r, h | h⟩ := mem_report hline <;> cases h

theorem unlimited_printout (settings : Settings) (ran : Outcome Machine MachineError RunEnd) :
    Unlimited (printout settings ran) := by
  intro n pc hline
  obtain ⟨r, h | h⟩ | ⟨v, h⟩ := mem_printout hline <;> cases h

theorem Unlimited.append {t u : Transcript} (h : Unlimited t) (h' : Unlimited u) :
    Unlimited (t ++ u) := by
  intro n pc hline
  exact (List.mem_append.1 hline).elim (h n pc) (h' n pc)

/-- The account of what a dialogue has executed. -/
def Tallied (rounds : List Round) : Said → Prop
  | (printed, .ask session) =>
    session.machine.executed = (rounds.map Round.steps).sum ∧ Unlimited printed
  | (printed, .done _ session?) =>
    executed session? = (rounds.map Round.steps).sum ∧
      ∀ n pc, .limitReached n pc ∈ printed → ∃ earlier last, rounds = earlier ++ [last] ∧
        last.ran.result = .ok ⟨.stepLimit, n⟩
  | (_, .crash _) => True

/-- **One run keeps the account.** -/
theorem tallied_proceed (hd : Tallied rounds (printed, .ask session))
    (hran : session.machine.run fuel mode session.limit = some ran)
    (h : proceed fuel settings mode session = some said) :
    Tallied (rounds ++ [⟨session.machine, ran⟩]) (Said.after printed said) := by
  obtain ⟨hcount, hquiet⟩ := hd
  have htotal : ran.after.executed =
      ((rounds ++ [(⟨session.machine, ran⟩ : Round)]).map Round.steps).sum := by
    rw [executed_of_run hran, hcount]
    simp
  have hprintout := hquiet.append (unlimited_printout settings ran)
  cases told_of_run hran h with
  | @refused e hresult =>
    have hreport := hquiet.append (unlimited_report settings.debug ran.events)
    rw [Said.after_after]
    obtain ⟨message, hfail⟩ | hfail := fail_cases { session with machine := ran.after } e
    · have hfailure : Unlimited (printed ++ report settings.debug ran.events ++
          [.failure message]) := hreport.append (by simp [Unlimited])
      rw [hfail]
      exact ⟨htotal, fun n pc hline => absurd hline (hfailure n pc)⟩
    · rw [hfail]
      trivial
  | asked _ _ =>
    rw [Said.after_after]
    exact ⟨htotal, hprintout.append (by simp [Unlimited])⟩
  | @finished stop hresult _ =>
    rw [Said.after_after]
    refine ⟨htotal, ?_⟩
    intro n pc hline
    rcases List.mem_append.1 hline with hline | hline
    · exact absurd hline (hprintout n pc)
    · -- only the end of the dialogue speaks of the limit, and of this run
      obtain ⟨hstop, heq⟩ | ⟨text, heq⟩ := mem_finish hline
      · obtain ⟨rfl, -⟩ := Line.limitReached.inj heq
        exact ⟨rounds, _, rfl, by rw [hresult, ← hstop]⟩
      · cases heq

/-- **Every dialogue is tallied.** -/
theorem Dialogue.tallied (h : Dialogue fuel settings opened rounds said) :
    Tallied rounds said := by
  induction h with
  | @notLoaded e hopening =>
    rw [refusal]
    split
    · exact ⟨rfl, by simp⟩
    · trivial
  | @started session ran said hopening hran hproceed =>
    obtain ⟨program, -, rfl⟩ := opening_eq_ok_iff.1 hopening
    have hfirst : Tallied [] ([], .ask ((Session.start program settings.limit
      settings.debug).replaceInput settings.input)) := ⟨rfl, by simp [Unlimited]⟩
    exact tallied_proceed hfirst hran hproceed
  | @answered rounds printed session v ran said _ hran hproceed ih =>
    have hfed : Tallied rounds (printed, .ask (session.feed [v])) := ih
    exact tallied_proceed hfed hran hproceed
  | misheard answer _ ih => exact ⟨ih.1, ih.2.append (by simp [Unlimited])⟩
  | @hungUp rounds printed session ending _ ih =>
    cases ending with
    | endOfInput => trivial
    | interrupt =>
      have hquiet : Unlimited (printed ++ [.interrupted]) := ih.2.append (by simp [Unlimited])
      exact ⟨ih.1, fun n pc hline => absurd hline (hquiet n pc)⟩

/-! ## Played dialogues -/

/-- **The limit bounds each run.** Whatever program, input and lines a dialogue is
played on, each of its runs executes as many instructions as the limit allows at
most, and what has been executed in the end is what the runs have executed, taken
together. The limit is said to be reached by the last run, with the number of
instructions that run has executed: all there were exactly if the runs before it
have executed none. Where all input is given beforehand there is but one run. -/
theorem limit_bounds_each_run {stdin : String} {ending : Ending}
    (hlimit : settings.limit = some (N : Int))
    (h : play fuel settings opened stdin ending = some (printed, .done code session?)) :
    ∃ rounds, Dialogue fuel settings opened rounds (printed, .done code session?) ∧
      executed session? = (rounds.map Round.steps).sum ∧ (∀ x ∈ rounds, x.steps ≤ N) ∧
      executed session? ≤ rounds.length * N ∧
      (∀ n pc, .limitReached n pc ∈ printed → ∃ earlier last, rounds = earlier ++ [last] ∧
        n = N ∧ n = last.steps ∧ (n = executed session? ↔ ∀ x ∈ earlier, x.steps = 0)) ∧
      (settings.mode = .halt → executed session? ≤ N ∧
        ∀ n pc, .limitReached n pc ∈ printed → n = executed session?) := by
  obtain ⟨rounds, hd⟩ := exists_dialogue h
  obtain ⟨htotal, hlines⟩ := hd.tallied
  have hreached : ∀ n pc, .limitReached n pc ∈ printed → ∃ earlier last,
      rounds = earlier ++ [last] ∧ n = N ∧ n = last.steps ∧
        (n = executed session? ↔ ∀ x ∈ earlier, x.steps = 0) := by
    intro n pc hline
    obtain ⟨earlier, last, rfl, hresult⟩ := hlines n pc hline
    obtain ⟨-, hcut⟩ := hd.steps_le hlimit (x := last) (by simp)
    obtain ⟨rfl, hsteps⟩ := hcut n hresult
    refine ⟨earlier, last, rfl, rfl, hsteps.symm, ?_⟩
    have hsum : executed session? = (earlier.map Round.steps).sum + n := by
      rw [htotal, List.map_append, List.sum_append, ← hsteps]
      rfl
    have hzero := List.sum_eq_zero_iff (l := earlier.map Round.steps)
    rw [List.forall_mem_map] at hzero
    rw [← hzero]
    omega
  have hbound : executed session? ≤ rounds.length * N := by
    have hle : ∀ n ∈ rounds.map Round.steps, n ≤ N :=
      List.forall_mem_map.2 fun x hx => (hd.steps_le hlimit hx).1
    rw [htotal]
    refine (List.sum_le_card_nsmul _ N hle).trans_eq ?_
    rw [List.length_map, smul_eq_mul]
  refine ⟨rounds, hd, htotal, fun x hx => (hd.steps_le hlimit hx).1, hbound, hreached,
    fun hmode => ?_⟩
  have hone : rounds.length ≤ 1 := (hd.one_run hmode).1
  constructor
  · calc
      executed session? ≤ rounds.length * N := hbound
      _ ≤ N := by simpa using Nat.mul_le_mul_right N hone
  · intro n pc hline
    obtain ⟨earlier, last, rfl, -, -, hiff⟩ := hreached n pc hline
    obtain rfl : earlier = [] := by simpa using hone
    exact hiff.2 (by simp)

/-- A program that takes a value and then spins is stopped by the limit. -/
theorem a_spinning_program_is_stopped :
    ∃ printed session?,
      play 9 { file := "p.txt", input := [5], limit := some 7 }
        (.ok "3,0,1105,1,2".toUTF8.data.toList) "" .endOfInput =
          some (printed, .done 0 session?) ∧
      printed = [.limitReached 7 2] ∧ executed session? = 7 := by
  obtain ⟨session?, hplay⟩ : ∃ session?, play 9 { file := "p.txt", input := [5], limit := some 7 }
      (.ok "3,0,1105,1,2".toUTF8.data.toList) "" .endOfInput =
        some ([.limitReached 7 2], .done 0 session?) := exists_done (by decide +kernel)
  obtain ⟨rounds, -, -, -, -, -, hhalt⟩ := limit_bounds_each_run (N := 7) rfl hplay
  exact ⟨_, session?, hplay, rfl, ((hhalt rfl).2 7 2 (by simp)).symm⟩

/-- **Two answers exceed the limit.** A program that takes two values, outputs one
and halts is given a limit of two instructions, and executes three before it is
stopped. -/
theorem two_answers_exceed_the_limit :
    (play 9 { file := "p.txt", mode := .interactive, limit := some 2 }
        (.ok "3,0,3,0,104,7,99".toUTF8.data.toList) "1\n1\n" .endOfInput).map
        (fun said => (said.1, match said.2 with
          | .done code session? => some (code, executed session?)
          | _ => none)) =
      some ([.prompt, .prompt, .value 7, .limitReached 2 6], some (0, 3)) := by
  decide +kernel

end IntMachine.Runner
