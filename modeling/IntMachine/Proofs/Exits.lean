import IntMachine.Proofs.Heard
import IntMachine.Runner.Command
/-!
# How a dialogue exits

The runner reports a program that cannot be loaded, an ill-formed instruction and
missing input, on standard error and with exit code 1. For any other refusal of a
run it would break off, but there is none: its machines can all be run, and what
such a run may be refused for is reported (`Machine.refused_cases`). Nor is there
a memory that cannot be listed (`finish_eq`). Two failures it leaves to whoever
called it: a file that is not text, or has a name that no file can have, and a
prompt behind the last line. `Exits` lists the ways to exit, and `exits_of_play`
shows that there are no others; a dialogue whose runs stop comes to one of them
(`Stops.exists_play`).
-/

namespace IntMachine.Runner

variable {fuel : Nat} {settings : Settings} {opened : Program.Opened}
variable {mode : RunMode} {session : Session} {said last : Said} {rounds : List Round}
variable {printed : Transcript} {stdin line : String} {ending : Ending}
variable {lines read unread : List String} {ran : Outcome Machine MachineError RunEnd}

/-! ## Ways to exit -/

/-- What is said where a run lacks input at an address. -/
def missingInput (pc : Int) : String :=
  s!"Input required at pc={pc} but no input was provided" ++
    " (supply values with --input or use --mode interactive)"

/-- All has gone well so far: the program was loaded, the runs gave results, and
nothing was said of a failure. -/
structure Untroubled (settings : Settings) (opened : Program.Opened) (rounds : List Round)
    (printed : Transcript) : Prop where
  loaded : ∃ first, opening settings opened = .ok first
  results : ∀ x ∈ rounds, ∃ stop, x.ran.result = .ok stop
  quiet : ∀ message, Line.failure message ∉ printed

/-- **How the runner exits** after some runs, and what it reports. -/
inductive Exits (fuel : Nat) (settings : Settings) (opened : Program.Opened) (stdin : String)
    (ending : Ending) : List Round → Report Crash → Prop
  /-- The program was not loaded. -/
  | notLoaded {e : LoadError} :
      opening settings opened = .error e → e.isReported = true →
      Exits fuel settings opened stdin ending [] ⟨"", s!"Error: {e.message}\n", .ok 1⟩
  /-- The file is not text, or has a name that no file can have. -/
  | notText {e : LoadError} :
      opening settings opened = .error e → e.isReported = false →
      Exits fuel settings opened stdin ending [] ⟨"", "", .error (.load e)⟩
  /-- A run came to an ill-formed instruction. -/
  | illFormed {rounds : List Round} {x : Round} {e : DecodeFailure} {printed : Transcript} :
      Untroubled settings opened rounds printed → x.ran.result = .error (.decode e) →
      Exits fuel settings opened stdin ending (rounds ++ [x])
        ⟨printed.text .out, printed.text .err ++ s!"Error: {e.message}\n", .ok 1⟩
  /-- A run lacked input that was to be given beforehand. -/
  | unfed {rounds : List Round} {x : Round} {pc : Int} {printed : Transcript} :
      settings.mode = .halt → Untroubled settings opened rounds printed →
      x.ran.result = .error (.inputExhausted pc) →
      Exits fuel settings opened stdin ending (rounds ++ [x])
        ⟨printed.text .out, printed.text .err ++ s!"Error: {missingInput pc}\n", .ok 1⟩
  | finished {rounds : List Round} {printed : Transcript} :
      Untroubled settings opened rounds printed →
      Exits fuel settings opened stdin ending rounds
        ⟨printed.text .out, printed.text .err, .ok 0⟩
  /-- A line was asked for behind the last one, and an interrupt came. -/
  | interrupted {rounds : List Round} {printed : Transcript} {session : Session} :
      Untroubled settings opened rounds printed →
      Heard fuel settings opened (Text.linesOf stdin) (printed, .ask session) →
      ending = .interrupt →
      Exits fuel settings opened stdin ending rounds
        ⟨printed.text .out, printed.text .err ++ "\nInterrupted by user\n", .ok 1⟩
  /-- A line was asked for behind the last one, and nothing came. -/
  | hungUp {rounds : List Round} {printed : Transcript} {session : Session} :
      Untroubled settings opened rounds printed →
      Heard fuel settings opened (Text.linesOf stdin) (printed, .ask session) →
      ending = .endOfInput →
      Exits fuel settings opened stdin ending rounds
        ⟨printed.text .out, printed.text .err, .error .endOfInput⟩

theorem text_after (t : Transcript) (said : Said) (s : Stream) :
    (Said.after t said).1.text s = t.text s ++ said.1.text s := by
  simp [Said.after, Transcript.text]

/-- More lines that tell of no failure. -/
theorem Untroubled.append {more : Transcript} (h : Untroubled settings opened rounds printed)
    (hmore : ∀ message, Line.failure message ∉ more) :
    Untroubled settings opened rounds (printed ++ more) :=
  { h with
    quiet := fun message hline =>
      (List.mem_append.1 hline).elim (h.quiet message) (hmore message) }

/-- One more run that gave a result. -/
theorem Untroubled.printout {stop : RunEnd} (h : Untroubled settings opened rounds printed)
    (before : Machine) (hresult : ran.result = .ok stop) :
    Untroubled settings opened (rounds ++ [⟨before, ran⟩]) (printed ++ printout settings ran) := by
  have hround : Untroubled settings opened (rounds ++ [⟨before, ran⟩]) printed :=
    { h with results := results_concat h.results hresult }
  refine hround.append ?_
  intro message hline
  obtain ⟨r, h | h⟩ | ⟨v, h⟩ := mem_printout hline <;> cases h

/-- A dialogue that asks is untroubled; one that has ended has exited. -/
structure Standing (fuel : Nat) (settings : Settings) (opened : Program.Opened) (stdin : String)
    (ending : Ending) (rounds : List Round) (said : Said) : Prop where
  asks : ∀ session, said.2 = .ask session → Untroubled settings opened rounds said.1
  exits : ∀ exit, said.2.exit? = some exit →
    Exits fuel settings opened stdin ending rounds ⟨said.1.text .out, said.1.text .err, exit⟩

theorem Standing.asking (h : Untroubled settings opened rounds printed) (session : Session) :
    Standing fuel settings opened stdin ending rounds (printed, .ask session) where
  asks _ _ := h
  exits exit hexit := by cases hexit

theorem Standing.ended {exit : Except Crash Nat} (hexit : said.2.exit? = some exit)
    (h : Exits fuel settings opened stdin ending rounds
      ⟨said.1.text .out, said.1.text .err, exit⟩) :
    Standing fuel settings opened stdin ending rounds said where
  asks session hask := by
    rw [hask] at hexit
    cases hexit
  exits exit' hexit' := by
    obtain rfl := Option.some.inj (hexit.symm.trans hexit')
    exact h

/-- What goes to either stream of a failure. -/
theorem text_failure (message : String) :
    Transcript.text [.failure message] .out = "" ∧
      Transcript.text [.failure message] .err = s!"Error: {message}\n" := by
  have htext : (Line.failure message).text = s!"Error: {message}\n" := rfl
  constructor
  · simp [Transcript.text, Line.stream]
  · simp [Transcript.text, Line.stream, htext]

/-- A failure ends the dialogue. -/
theorem Standing.failed {message : String} (session : Session)
    (h : Exits fuel settings opened stdin ending rounds
      ⟨printed.text .out, printed.text .err ++ s!"Error: {message}\n", .ok 1⟩) :
    Standing fuel settings opened stdin ending rounds
      (Said.after printed ([.failure message], .done 1 session)) := by
  obtain ⟨hout, herr⟩ := text_failure message
  refine .ended rfl ?_
  rw [text_after, text_after, hout, herr, String.append_empty]
  exact h

theorem fail_of_missing_input (session : Session) (pc : Int) :
    fail session (.inputExhausted pc) = ([.failure (missingInput pc)], .done 1 session) := rfl

/-- **One run** leaves the dialogue untroubled or ends it. -/
theorem Untroubled.proceed (hd : Untroubled settings opened rounds printed)
    (hactive : session.machine.Active) (hmode : mode = .toHalt → settings.mode = .halt)
    (hran : session.machine.run fuel mode session.limit = some ran)
    (h : proceed fuel settings mode session = some said) :
    Standing fuel settings opened stdin ending (rounds ++ [⟨session.machine, ran⟩])
      (Said.after printed said) := by
  cases told_of_run hran h with
  | @refused e hresult =>
    have hreport : Untroubled settings opened rounds
        (printed ++ report settings.debug ran.events) := by
      refine hd.append ?_
      intro message hline
      obtain ⟨r, h | h⟩ := mem_report hline <;> cases h
    rw [Said.after_after]
    rcases Machine.refused_cases hactive hran hresult with ⟨d, rfl⟩ | ⟨htoHalt, rfl⟩
    · exact .failed _ (.illFormed hreport hresult)
    · rw [fail_of_missing_input]
      exact .failed _ (.unfed (hmode htoHalt) hreport hresult)
  | asked hresult _ =>
    have hprintout := hd.printout session.machine hresult
    rw [Said.after_after]
    exact .asking (hprintout.append (by simp)) _
  | finished hresult _ =>
    have hprintout := hd.printout session.machine hresult
    rw [Said.after_after]
    refine .ended rfl (.finished ?_)
    refine hprintout.append ?_
    intro message hline
    obtain ⟨-, h⟩ | ⟨text, h⟩ := mem_finish hline <;> cases h

/-- What is said of a program that was not loaded. -/
theorem standing_refusal {e : LoadError} (h : opening settings opened = .error e) :
    Standing fuel settings opened stdin ending [] (refusal e) := by
  rw [refusal]
  split
  · rename_i hreported
    refine .ended rfl ?_
    rw [(text_failure e.message).1, (text_failure e.message).2]
    exact .notLoaded h hreported
  · rename_i hreported
    exact .ended rfl (.notText h (Bool.eq_false_iff.2 hreported))

/-- **Where a dialogue stands after some lines.** -/
theorem Heard.standing (h : Heard fuel settings opened lines said) (stdin : String)
    (ending : Ending) :
    ∃ rounds, Dialogue fuel settings opened rounds said ∧
      Standing fuel settings opened stdin ending rounds said := by
  induction h with
  | begun hbegin =>
    rcases begin_cases hbegin with ⟨e, hopening, rfl⟩ | ⟨session, hopening, hproceed⟩
    · exact ⟨[], .notLoaded hopening, standing_refusal hopening⟩
    · obtain ⟨ran, hran, -⟩ := exists_told hproceed
      have hfirst : Untroubled settings opened [] [] := ⟨⟨session, hopening⟩, by simp, by simp⟩
      have hactive : session.machine.Active := .inl (opening_limit hopening).2
      exact ⟨_, .started hopening hran hproceed,
        hfirst.proceed hactive firstMode_eq_toHalt_iff.1 hran hproceed⟩
  | @heard lines line printed session said _ hhear ih =>
    obtain ⟨rounds, hd, hstanding⟩ := ih
    have huntroubled := hstanding.asks _ rfl
    rcases hear_cases hhear with ⟨-, answer, rfl⟩ | ⟨v, -, hproceed⟩
    · exact ⟨rounds, hd.misheard answer, .asking (huntroubled.append (by simp)) _⟩
    · obtain ⟨ran, hran, -⟩ := exists_told hproceed
      have hactive : (session.feed [v]).machine.Active := (hd.asking rfl).active [v]
      exact ⟨_, hd.answered hran hproceed, huntroubled.proceed hactive (by simp) hran hproceed⟩

/-- **How a played dialogue exits.** -/
theorem exits_of_play (h : play fuel settings opened stdin ending = some last) :
    ∃ rounds exit, Dialogue fuel settings opened rounds last ∧ last.2.exit? = some exit ∧
      Exits fuel settings opened stdin ending rounds ⟨last.1.text .out, last.1.text .err, exit⟩ := by
  obtain ⟨read, unread, hlines, ⟨hheard, hend⟩ | ⟨rfl, printed, session, hheard, rfl⟩⟩ :=
    play_cases h
  · obtain ⟨rounds, hd, hstanding⟩ := hheard.standing stdin ending
    obtain ⟨printed, turn⟩ := last
    cases turn with
    | ask session => exact absurd rfl (hend session)
    | done code session? => exact ⟨rounds, _, hd, rfl, hstanding.exits _ rfl⟩
    | crash e => exact ⟨rounds, _, hd, rfl, hstanding.exits _ rfl⟩
  · -- all lines have been read, and what comes behind them decides
    obtain ⟨rounds, hd, hstanding⟩ := hheard.standing stdin ending
    have huntroubled := hstanding.asks _ rfl
    rw [List.append_nil] at hlines
    rw [← hlines] at hheard
    cases ending with
    | interrupt =>
      refine ⟨rounds, .ok 1, hd.hungUp .interrupt, rfl, ?_⟩
      have hline : Transcript.text [.interrupted] .err = "\nInterrupted by user\n" := by decide
      have hout : Transcript.text [.interrupted] .out = "" := by decide
      rw [text_after, text_after, hangUp, hline, hout, String.append_empty]
      exact .interrupted huntroubled hheard rfl
    | endOfInput =>
      refine ⟨rounds, .error .endOfInput, hd.hungUp .endOfInput, rfl, ?_⟩
      rw [Said.after, hangUp, List.append_nil]
      exact .hungUp huntroubled hheard rfl

/-! ## Breaking off -/

/-- The file is not text, or has a name that no file can have. -/
def NotText (opened : Program.Opened) : Prop :=
  opened = .error .nulInName ∨
    ∃ bytes e, opened = .ok bytes ∧ Program.textOfBytes bytes = .error e

/-- A line is asked for behind the last one, and nothing comes. -/
def Deserted (fuel : Nat) (settings : Settings) (opened : Program.Opened) (stdin : String)
    (ending : Ending) : Prop :=
  ending = .endOfInput ∧ ∃ printed session,
    Heard fuel settings opened (Text.linesOf stdin) (printed, .ask session)

/-- What may be wrong with the bytes of a program file. -/
theorem ofBytes_error_cases {bytes : List UInt8} {cause : Program.FileError}
    (h : Program.ofBytes bytes = .error cause) :
    (∃ e, Program.textOfBytes bytes = .error e ∧ cause = .notUtf8 e) ∨
      ∃ e, cause = .malformed e := by
  rw [Program.ofBytes] at h
  split at h
  · rename_i e he
    exact .inl ⟨e, he, (Except.error.inj h).symm⟩
  · rename_i text _
    cases hparse : Program.parse text with
    | error e =>
      rw [hparse] at h
      exact .inr ⟨e, (Except.error.inj h).symm⟩
    | ok program =>
      rw [hparse] at h
      cases h

/-- What is not text is what the runner does not report. -/
theorem notText_iff (settings : Settings) :
    NotText opened ↔ ∃ e, opening settings opened = .error e ∧ e.isReported = false := by
  constructor
  · rintro (rfl | ⟨bytes, e, rfl, he⟩)
    · exact ⟨_, opening_eq_error_iff.2 ⟨.cannotOpen .nulInName, rfl, rfl⟩, rfl⟩
    · have hcause : Program.ofFile (.ok bytes) = .error (.notUtf8 e) := by
        simp [Program.ofFile, Program.ofBytes, he]
      exact ⟨_, opening_eq_error_iff.2 ⟨_, hcause, rfl⟩, rfl⟩
  · rintro ⟨e, hopening, hreported⟩
    obtain ⟨cause, hcause, rfl⟩ := opening_eq_error_iff.1 hopening
    cases opened with
    | error e =>
      obtain rfl := Except.error.inj hcause
      cases e <;> first | exact .inl rfl | cases hreported
    | ok bytes =>
      rcases ofBytes_error_cases hcause with ⟨e, he, rfl⟩ | ⟨e, rfl⟩
      · exact .inr ⟨bytes, e, rfl, he⟩
      · cases hreported

theorem Untroubled.not_notText (h : Untroubled settings opened rounds printed) :
    ¬ NotText opened := by
  rw [notText_iff settings]
  rintro ⟨e, hrefused, -⟩
  obtain ⟨first, hfirst⟩ := h.loaded
  cases hfirst.symm.trans hrefused

/-- A dialogue that is deserted breaks off. -/
theorem Deserted.exit {exit : Except Crash Nat} (h : Deserted fuel settings opened stdin ending)
    (hplay : play fuel settings opened stdin ending = some last)
    (hexit : last.2.exit? = some exit) : exit = .error .endOfInput := by
  obtain ⟨rfl, printed, session, hheard⟩ := h
  rw [hheard.play_eq (List.append_nil _).symm] at hplay
  obtain rfl := Option.some.inj hplay
  exact (Option.some.inj hexit).symm

/-- **An exit code is given exactly where the runner does not break off** for one
of the two reasons. -/
theorem Exits.ok_iff {report : Report Crash}
    (h : Exits fuel settings opened stdin ending rounds report)
    (hdeserted : Deserted fuel settings opened stdin ending → report.exit = .error .endOfInput) :
    report.exit = .ok 0 ∨ report.exit = .ok 1 ↔
      ¬ (NotText opened ∨ Deserted fuel settings opened stdin ending) := by
  have hattended : ∀ code, report.exit = .ok code →
      ¬ Deserted fuel settings opened stdin ending := by
    intro code hcode hdesert
    cases hcode.symm.trans (hdeserted hdesert)
  cases h with
  | @notLoaded e hopening hreported =>
    -- a program fails to load in one way, and this one is reported
    refine iff_of_true (.inr rfl) (not_or.2 ⟨?_, hattended 1 rfl⟩)
    rw [notText_iff settings]
    rintro ⟨e', hopening', hunreported⟩
    obtain rfl := Except.error.inj (hopening.symm.trans hopening')
    simp [hreported] at hunreported
  | @notText e hopening hunreported =>
    exact iff_of_false (by simp)
      (not_not.2 (.inl ((notText_iff settings).2 ⟨e, hopening, hunreported⟩)))
  | illFormed hd _ | unfed _ hd _ =>
    exact iff_of_true (.inr rfl) (not_or.2 ⟨hd.not_notText, hattended 1 rfl⟩)
  | finished hd => exact iff_of_true (.inl rfl) (not_or.2 ⟨hd.not_notText, hattended 0 rfl⟩)
  | interrupted hd _ _ =>
    exact iff_of_true (.inr rfl) (not_or.2 ⟨hd.not_notText, hattended 1 rfl⟩)
  | hungUp _ hheard hend => exact iff_of_false (by simp) (not_not.2 (.inr ⟨hend, _, _, hheard⟩))

/-! ## Stopping -/

/-- Every run that the dialogue comes to on the lines stops. -/
structure Stops (settings : Settings) (opened : Program.Opened) (lines : List String) : Prop where
  first : ∀ session, opening settings opened = .ok session →
    ∃ fuel ran, session.machine.run fuel settings.firstMode session.limit = some ran
  next : ∀ fuel read line unread printed session v, lines = read ++ line :: unread →
    Heard fuel settings opened read (printed, .ask session) → answers [line] = [v] →
    ∃ fuel ran, (session.machine.feed [v]).run fuel .toInput session.limit = some ran

theorem Stops.exists_hear (h : Stops settings opened lines)
    (hlines : lines = read ++ line :: unread)
    (hheard : Heard fuel settings opened read (printed, .ask session)) :
    ∃ fuel said, hear fuel settings session line = some said := by
  cases hanswer : Text.readLoose? (Text.trim line.toList) with
  | none => exact ⟨0, _, by rw [hear, hanswer]⟩
  | some v =>
    obtain ⟨fuel', ran, hran⟩ :=
      h.next fuel read line unread printed session v hlines hheard (by simp [answers, hanswer])
    have hfed : (session.feed [v]).machine.run fuel' .toInput (session.feed [v]).limit = some ran :=
      hran
    obtain ⟨said, hsaid, -⟩ := exists_proceed settings hfed
    exact ⟨fuel', said, by rw [hear, hanswer]; exact hsaid⟩

/-- **A dialogue whose runs stop** comes to its end. -/
theorem Stops.exists_converse (h : Stops settings opened lines) (ending : Ending)
    (hlines : lines = read ++ unread) (hheard : Heard fuel settings opened read said) :
    ∃ fuel last, converse fuel settings ending unread said = some last := by
  induction unread generalizing read fuel said with
  | nil =>
    obtain ⟨printed, turn⟩ := said
    cases turn <;> exact ⟨0, _, rfl⟩
  | cons line rest ih =>
    obtain ⟨printed, turn⟩ := said
    cases turn with
    | ask session =>
      -- fuel for this line and fuel for the lines before it make fuel for both
      obtain ⟨fuel', said, hsaid⟩ := h.exists_hear hlines hheard
      have hmore := (hheard.mono (Nat.le_max_left fuel fuel')).heard
        (hear_mono hsaid (Nat.le_max_right fuel fuel'))
      obtain ⟨fuel'', last, hlast⟩ := ih (by simp [hlines]) hmore
      refine ⟨max fuel' fuel'', last, ?_⟩
      rw [converse, hear_mono hsaid (Nat.le_max_left ..)]
      exact converse_mono hlast (Nat.le_max_right ..)
    | done _ _ | crash _ => exact ⟨0, _, rfl⟩

theorem Stops.exists_begin (h : Stops settings opened lines) :
    ∃ fuel said, begin fuel settings opened = some said := by
  cases hopening : opening settings opened with
  | error e => exact ⟨0, _, begin_of_refused hopening⟩
  | ok session =>
    obtain ⟨fuel, ran, hran⟩ := h.first session hopening
    obtain ⟨said, hsaid, -⟩ := exists_proceed settings hran
    exact ⟨fuel, said, by rw [begin_of_opening hopening, hsaid]⟩

theorem Stops.exists_play (h : Stops settings opened (Text.linesOf stdin)) (ending : Ending) :
    ∃ fuel last, play fuel settings opened stdin ending = some last := by
  obtain ⟨fuel, said, hbegin⟩ := h.exists_begin
  obtain ⟨fuel', last, hlast⟩ := h.exists_converse ending (List.nil_append _).symm (.begun hbegin)
  refine ⟨max fuel fuel', last, ?_⟩
  rw [play, begin_mono hbegin (Nat.le_max_left ..)]
  exact converse_mono hlast (Nat.le_max_right ..)

end IntMachine.Runner
