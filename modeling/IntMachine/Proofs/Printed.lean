import IntMachine.Proofs.Dialogue
import IntMachine.Proofs.History
import IntMachine.Runner.Command
/-!
# What a dialogue prints of the output

A run that gives a result is followed by the values it has output. A refused run
ends the dialogue, and what it had output before it was refused is not printed:
the values printed are the output of all runs but that one
(`printed_unless_refused`).
-/

namespace IntMachine.Runner

/-- The values that a run has output. -/
def Round.outputs (x : Round) : List Int :=
  (instructionsOf x.ran.events).filterMap Instruction.output?

/-- The output log at the end of a dialogue; empty where no program was
loaded. -/
def logged (session? : Option Session) : List Int :=
  match session? with
  | some session => session.machine.output.sent.toList
  | none => []

variable {fuel : Nat} {settings : Settings} {opened : Program.Opened}
variable {mode : RunMode} {session : Session} {said : Said} {rounds : List Round}
variable {printed : Transcript} {code : Nat} {session? : Option Session}
variable {ran : Outcome Machine MachineError RunEnd}

/-! ## Lines that are no values -/

/-- Lines that tell neither of an output value nor of an interrupt. -/
def Aside (t : Transcript) : Prop := ∀ line ∈ t, line.value? = none ∧ line ≠ .interrupted

theorem Aside.values {t : Transcript} (h : Aside t) : t.values = [] :=
  List.filterMap_eq_nil_iff.2 fun line hline => (h line hline).1

theorem Aside.quiet {t : Transcript} (h : Aside t) : Line.interrupted ∉ t :=
  fun hline => (h _ hline).2 rfl

theorem aside_report (debug : Bool) (events : Array Event) : Aside (report debug events) := by
  intro line hline
  obtain ⟨r, rfl | rfl⟩ := mem_report hline <;> exact ⟨rfl, by simp⟩

theorem aside_finish (settings : Settings) (session : Session) (stop : RunEnd) :
    Aside (finish settings session stop).1 := by
  intro line hline
  obtain ⟨-, rfl⟩ | ⟨text, rfl⟩ := mem_finish hline <;> exact ⟨rfl, by simp⟩

@[simp] theorem values_map_value (vs : List Int) : Transcript.values (vs.map .value) = vs := by
  simp [Transcript.values, Line.value?, List.filterMap_map, Function.comp_def]

/-! ## Accounts -/

/-- The runs so far gave results, and what they have output has been collected
and printed. -/
structure UpToDate (rounds : List Round) (printed : Transcript) (session : Session) : Prop where
  results : ∀ x ∈ rounds, ∃ stop, x.ran.result = .ok stop
  values : printed.values = rounds.flatMap Round.outputs
  log : session.machine.output.sent.toList = rounds.flatMap Round.outputs
  collected : session.machine.output.pending = []
  quiet : Line.interrupted ∉ printed

/-- **How a dialogue that has ended stands.** Its runs gave results, but for a
last one that may have been refused, and the output of those that gave results is
what was printed. -/
structure Settled (completed : List Round) (refused? : Option Round) (printed : Transcript)
    (code : Nat) (session? : Option Session) : Prop where
  results : ∀ x ∈ completed, ∃ stop, x.ran.result = .ok stop
  refusal : ∀ x ∈ refused?, ∃ e, x.ran.result = .error e
  values : printed.values = completed.flatMap Round.outputs
  log : logged session? = (completed ++ refused?.toList).flatMap Round.outputs
  success : code = 0 → refused? = none
  interrupted : Line.interrupted ∈ printed → refused? = none

/-- The account of a dialogue. -/
def Accounted (rounds : List Round) : Said → Prop
  | (printed, .ask session) => UpToDate rounds printed session
  | (printed, .done code session?) =>
    ∃ completed refused?, rounds = completed ++ refused?.toList ∧
      Settled completed refused? printed code session?
  | (_, .crash _) => True

/-- A dialogue that is up to date may end. -/
theorem UpToDate.settled (h : UpToDate rounds printed session) (code : Nat) :
    Settled rounds none printed code session where
  results := h.results
  refusal := by simp
  values := h.values
  log := by simpa [logged] using h.log
  success _ := rfl
  interrupted _ := rfl

/-- What is no output does not touch the account. -/
theorem UpToDate.append {more : Transcript} (h : UpToDate rounds printed session)
    (hmore : Aside more) : UpToDate rounds (printed ++ more) session :=
  { h with
    values := by rw [Transcript.values_append, h.values, hmore.values, List.append_nil]
    quiet := by simp [h.quiet, hmore.quiet] }

/-- Nor does more input. -/
theorem UpToDate.feed (h : UpToDate rounds printed session) (vs : List Int) :
    UpToDate rounds printed (session.feed vs) :=
  { h with }

/-- A session about to make its first run is up to date. -/
theorem upToDate_opening (h : opening settings opened = .ok session) : UpToDate [] [] session := by
  obtain ⟨program, -, rfl⟩ := opening_eq_ok_iff.1 h
  exact ⟨by simp, rfl, rfl, rfl, by simp⟩

/-- What a run outputs is pending where everything before it was collected. -/
theorem output_of_run (h : session.machine.run fuel mode session.limit = some ran)
    (hcollected : session.machine.output.pending = []) :
    ran.after.output.pending = Round.outputs ⟨session.machine, ran⟩ ∧
      ran.after.output.sent.toList =
        session.machine.output.sent.toList ++ Round.outputs ⟨session.machine, ran⟩ := by
  obtain ⟨is, hfollows, hevents, -⟩ := Machine.run_follows h
  subst hevents
  rw [hfollows.output]
  exact ⟨by simp [hcollected, Round.outputs], by simp [Channel.sendAll, Round.outputs]⟩

/-- A refused run ends the dialogue, and its output is in the log only. -/
theorem UpToDate.fail {e : MachineError} (hd : UpToDate rounds printed session)
    (hran : session.machine.run fuel mode session.limit = some ran)
    (hresult : ran.result = .error e) :
    Accounted (rounds ++ [⟨session.machine, ran⟩])
      (Said.after (printed ++ report settings.debug ran.events)
        (fail { session with machine := ran.after } e)) := by
  obtain ⟨-, hsent⟩ := output_of_run hran hd.collected
  obtain ⟨message, hfail⟩ | hfail := fail_cases { session with machine := ran.after } e
  · have hfailure : Aside [.failure message] := by simp [Aside, Line.value?]
    have hprinted := (hd.append (aside_report settings.debug ran.events)).append hfailure
    rw [hfail]
    refine ⟨rounds, some ⟨session.machine, ran⟩, rfl, hd.results, ?_, hprinted.values, ?_, ?_,
      fun hinterrupted => absurd hinterrupted hprinted.quiet⟩
    · simp [hresult]
    · simp [logged, hsent, hd.log]
    · simp
  · rw [hfail]
    trivial

/-- A run that gave a result leaves the session up to date, its output printed. -/
theorem UpToDate.collect {stop : RunEnd} (hd : UpToDate rounds printed session)
    (hran : session.machine.run fuel mode session.limit = some ran)
    (hresult : ran.result = .ok stop) (settings : Settings) :
    UpToDate (rounds ++ [⟨session.machine, ran⟩]) (printed ++ printout settings ran)
      { session with machine := ran.after.collectOutput.2 } := by
  obtain ⟨hpending, hsent⟩ := output_of_run hran hd.collected
  have hreport := aside_report settings.debug ran.events
  refine ⟨results_concat hd.results hresult, ?_, ?_, ?_, ?_⟩
  · simp [printout, hd.values, hreport.values, hpending]
  · simp [Machine.collectOutput, Channel.drain, hsent, hd.log]
  · simp [Machine.collectOutput]
  · simp [printout, hd.quiet, hreport.quiet]

/-- **One run keeps the account.** -/
theorem UpToDate.proceed (hd : UpToDate rounds printed session)
    (hran : session.machine.run fuel mode session.limit = some ran)
    (h : proceed fuel settings mode session = some said) :
    Accounted (rounds ++ [⟨session.machine, ran⟩]) (Said.after printed said) := by
  -- whether the dialogue goes on or ends here, what follows the printout is no output
  cases told_of_run hran h with
  | refused hresult =>
    rw [Said.after_after]
    exact hd.fail hran hresult
  | asked hresult _ =>
    rw [Said.after_after]
    exact (hd.collect hran hresult settings).append (by simp [Aside, Line.value?])
  | @finished stop hresult _ =>
    have hcollected := hd.collect hran hresult settings
    rw [Said.after_after]
    exact ⟨_, none, by simp, (hcollected.append (aside_finish settings _ stop)).settled 0⟩

/-- **Every dialogue is accounted for.** -/
theorem Dialogue.accounted (h : Dialogue fuel settings opened rounds said) :
    Accounted rounds said := by
  induction h with
  | @notLoaded e hopening =>
    rw [refusal]
    split
    · exact ⟨[], none, rfl, by simp, by simp, rfl, rfl, by simp, by simp⟩
    · trivial
  | started hopening hran hproceed =>
    exact (upToDate_opening hopening).proceed hran hproceed
  | answered _ hran hproceed ih => exact (UpToDate.feed ih _).proceed hran hproceed
  | misheard answer _ ih => exact UpToDate.append ih (by simp [Aside, Line.value?])
  | @hungUp rounds printed session ending _ ih =>
    cases ending with
    | endOfInput => trivial
    | interrupt =>
      have hsettled : Settled rounds none printed 1 session := UpToDate.settled ih 1
      refine ⟨rounds, none, by simp, { hsettled with values := ?_, interrupted := fun _ => rfl }⟩
      rw [Transcript.values_append, hsettled.values]
      exact List.append_nil _

/-! ## Played dialogues -/

/-- **All output is printed unless the last run was refused.** Whatever program,
input and lines a dialogue is played on, if it ends with an exit code, then the
values printed are what the runs that gave results have output, in order and each
once. These are all values in the log exactly if no run was refused or the
refused one had output nothing; so they are after exit code 0 and after an
interrupt at a prompt. (An interrupt during a run, which loses the output of that
run, is no ending of a dialogue here.) -/
theorem printed_unless_refused {stdin : String} {ending : Ending}
    (h : play fuel settings opened stdin ending = some (printed, .done code session?)) :
    ∃ completed refused?,
      Dialogue fuel settings opened (completed ++ refused?.toList) (printed, .done code session?) ∧
      Settled completed refused? printed code session? ∧
      (printed.values = logged session? ↔ ∀ x ∈ refused?, x.outputs = []) ∧
      (code = 0 ∨ Line.interrupted ∈ printed → printed.values = logged session?) := by
  obtain ⟨rounds, hd⟩ := exists_dialogue h
  obtain ⟨completed, refused?, rfl, hsettled⟩ := hd.accounted
  have hiff : printed.values = logged session? ↔ ∀ x ∈ refused?, x.outputs = [] := by
    rw [hsettled.values, hsettled.log, List.flatMap_append]
    cases refused? <;> simp
  refine ⟨completed, refused?, hd, hsettled, hiff, fun hend => hiff.2 ?_⟩
  have hnone : refused? = none := hend.elim hsettled.success hsettled.interrupted
  simp [hnone]

/-- A program that echoes one value is played on a line that is no integer and
one that is. -/
theorem an_echo_is_printed_in_full :
    ∃ printed session?,
      play 9 { file := "p.txt", mode := .interactive } (.ok "3,0,4,0,99".toUTF8.data.toList)
        "x\n7\n" .endOfInput = some (printed, .done 0 session?) ∧
      printed.values = [7] ∧ logged session? = printed.values := by
  have hseen : (play 9 { file := "p.txt", mode := .interactive }
      (.ok "3,0,4,0,99".toUTF8.data.toList) "x\n7\n" .endOfInput).map (fun (printed, turn) =>
        (printed.values, turn.exit?.map (·.toOption))) = some ([7], some (some 0)) := by
    decide +kernel
  obtain ⟨⟨printed, turn⟩, hplay, hend⟩ := Option.map_eq_some_iff.1 hseen
  simp only [Prod.mk.injEq] at hend
  obtain ⟨hvalues, hexit⟩ := hend
  cases turn with
  | ask session => simp [Turn.exit?] at hexit
  | crash e => simp [Turn.exit?, Except.toOption] at hexit
  | done code session? =>
    obtain rfl : code = 0 := by simpa [Turn.exit?, Except.toOption] using hexit
    obtain ⟨-, -, -, -, -, hall⟩ := printed_unless_refused hplay
    exact ⟨printed, session?, hplay, hvalues, (hall (.inl rfl)).symm⟩

/-- **Output before a refusal is lost.** A program that outputs a value and then
needs input that was not given: the value is in the log, and is not printed. -/
theorem output_before_a_refusal_is_not_printed :
    (play 9 { file := "p.txt" } (.ok "104,5,3,0,99".toUTF8.data.toList) "" .endOfInput).map
        (fun (printed, turn) => (printed, match turn with
          | .done code session? => some (code, logged session?)
          | _ => none)) =
      some ([.failure ("Input required at pc=2 but no input was provided" ++
        " (supply values with --input or use --mode interactive)")], some (1, [5])) := by
  decide +kernel

end IntMachine.Runner
