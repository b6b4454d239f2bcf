import IntMachine.Proofs.Exits
import IntMachine.Proofs.Lengths
/-!
# What the command reports

As a command the runner writes out a dialogue line by line, and it breaks off at an
integer that is too long to be read or to be written. `Leaves` lists what it leaves,
and `command_exits` shows that there is nothing else and for which four reasons
there may be no exit code.
-/

namespace IntMachine.Runner

/-! ## What is left -/

variable {fuel : Nat} {arguments : List String} {settings : Settings} {files : Files}
variable {opened : Program.Opened} {stdin : String} {ending : Ending}
variable {last : Said} {report : Report Crash}

/-- The program file has a token that is too long to be read, behind cells. -/
def TokenTooLong (opened : Program.Opened) : Prop := ∃ n, Program.BreaksOffIn n opened

/-- A line that is to be written holds an integer that is too long. -/
def LineTooLong (fuel : Nat) (settings : Settings) (opened : Program.Opened) (stdin : String)
    (ending : Ending) : Prop :=
  ∃ last, play fuel settings opened stdin ending = some last ∧ ∃ line ∈ last.1, Unwritable line

/-- **What the command leaves.** -/
inductive Leaves (fuel : Nat) (settings : Settings) (opened : Program.Opened) (stdin : String)
    (ending : Ending) : Report Crash → Prop
  /-- A token of the program file is too long to be read. -/
  | unread {n : Nat} :
      Program.BreaksOffIn n opened →
      Leaves fuel settings opened stdin ending ⟨"", "", .error (.tokenTooLong n)⟩
  /-- A line is too long to be written; the lines before it have been. -/
  | unwritten {last : Said} {before after : Transcript} {line : Line} :
      ¬ TokenTooLong opened → play fuel settings opened stdin ending = some last →
      last.1 = before ++ line :: after → (∀ x ∈ before, ¬ Unwritable x) → Unwritable line →
      Leaves fuel settings opened stdin ending
        ⟨before.text .out, before.text .err, .error .numberTooLong⟩
  /-- All has been written, and the dialogue has ended. -/
  | exited {rounds : List Round} {last : Said} {report : Report Crash} :
      ¬ TokenTooLong opened → play fuel settings opened stdin ending = some last →
      (∀ x ∈ last.1, ¬ Unwritable x) → last.2.exit? = some report.exit →
      Dialogue fuel settings opened rounds last →
      Exits fuel settings opened stdin ending rounds report →
      Leaves fuel settings opened stdin ending report

theorem tokenTooLong_iff : TokenTooLong opened ↔ ∃ n, Program.longTokenIn? opened = some n :=
  exists_congr fun _ => Program.longTokenIn?_eq_some_iff.symm

theorem command_of_unread {n : Nat} (hread : grammar.read {} arguments = .ok settings)
    (hopened : files.read (Path.normalName settings.file) = opened)
    (hn : Program.BreaksOffIn n opened) :
    command fuel arguments files stdin ending = some ⟨"", "", .error (.tokenTooLong n)⟩ := by
  rw [← Program.longTokenIn?_eq_some_iff] at hn
  rw [command, hread]
  dsimp only
  rw [hopened, hn]

/-- The command plays a dialogue on a file that can be read. -/
theorem command_eq (hread : grammar.read {} arguments = .ok settings)
    (hopened : files.read (Path.normalName settings.file) = opened)
    (hshort : ¬ TokenTooLong opened) :
    command fuel arguments files stdin ending =
      (play fuel settings opened stdin ending).bind Said.report? := by
  rw [tokenTooLong_iff, ← Option.isSome_iff_exists, Option.not_isSome_iff_eq_none] at hshort
  rw [command, hread]
  dsimp only
  rw [hopened, hshort]
  cases play fuel settings opened stdin ending <;> rfl

theorem report?_of_written (h : last.1.written = last.1) : last.report? =
    last.2.exit?.map fun exit => ⟨last.1.text .out, last.1.text .err, exit⟩ := by
  rw [Said.report?, if_pos h, h]

theorem report?_of_not_written (h : last.1.written ≠ last.1) : last.report? =
    some ⟨last.1.written.text .out, last.1.written.text .err, .error .numberTooLong⟩ := by
  rw [Said.report?, if_neg h]
  rfl

/-- **A played dialogue is reported.** -/
theorem exists_report (hshort : ¬ TokenTooLong opened)
    (h : play fuel settings opened stdin ending = some last) :
    ∃ report, last.report? = some report ∧ Leaves fuel settings opened stdin ending report := by
  obtain ⟨rounds, exit, hd, hexit, hexits⟩ := exits_of_play h
  obtain ⟨hwritten, hall⟩ | ⟨before, line, after, heq, hwritten, hbefore, hline⟩ :=
    written_cases last.1
  · refine ⟨_, ?_, .exited hshort h hall hexit hd hexits⟩
    rw [report?_of_written hwritten, hexit]
    rfl
  · have hcut : last.1.written ≠ last.1 := by
      rw [hwritten, heq]
      simp
    refine ⟨_, ?_, .unwritten hshort h heq hbefore hline⟩
    rw [report?_of_not_written hcut, hwritten]

theorem leaves_of_command (hread : grammar.read {} arguments = .ok settings)
    (hopened : files.read (Path.normalName settings.file) = opened)
    (h : command fuel arguments files stdin ending = some report) :
    Leaves fuel settings opened stdin ending report := by
  by_cases hshort : TokenTooLong opened
  · obtain ⟨n, hn⟩ := hshort
    rw [command_of_unread hread hopened hn] at h
    obtain rfl := Option.some.inj h
    exact .unread hn
  · rw [command_eq hread hopened hshort, Option.bind_eq_some_iff] at h
    obtain ⟨last, hplay, hlast⟩ := h
    obtain ⟨report', hreport, hleaves⟩ := exists_report hshort hplay
    obtain rfl := Option.some.inj (hreport.symm.trans hlast)
    exact hleaves

/-- **An exit code is given exactly where the command does not break off** for one
of four reasons. -/
theorem Leaves.ok_iff (h : Leaves fuel settings opened stdin ending report) :
    report.exit = .ok 0 ∨ report.exit = .ok 1 ↔
      ¬ (NotText opened ∨ TokenTooLong opened ∨ Deserted fuel settings opened stdin ending ∨
        LineTooLong fuel settings opened stdin ending) := by
  cases h with
  | unread hn => exact iff_of_false (by simp) (not_not.2 (.inr (.inl ⟨_, hn⟩)))
  | unwritten _ hplay heq _ hline =>
    exact iff_of_false (by simp)
      (not_not.2 (.inr (.inr (.inr ⟨_, hplay, _, by simp [heq], hline⟩))))
  | exited hshort hplay hall hexit _ hexits =>
    have hwritable : ¬ LineTooLong fuel settings opened stdin ending := by
      rintro ⟨last, hlast, line, hmem, hline⟩
      obtain rfl := Option.some.inj (hplay.symm.trans hlast)
      exact hall line hmem hline
    rw [hexits.ok_iff fun h => h.exit hplay hexit, or_iff_right hshort, or_iff_left hwritable]

/-- What is passed on is a load that is not the runner's to report, an integer
that is too long, or the lack of a line; no refusal of a run, and no listing. -/
theorem Leaves.cause_cases {cause : Crash} (h : Leaves fuel settings opened stdin ending report)
    (hcause : report.exit = .error cause) :
    (∃ e, cause = .load e ∧ e.isReported = false) ∨ (∃ n, cause = .tokenTooLong n) ∨
      cause = .numberTooLong ∨ cause = .endOfInput := by
  cases h with
  | @unread n _ => exact .inr (.inl ⟨n, (Except.error.inj hcause).symm⟩)
  | unwritten _ _ _ _ _ => exact .inr (.inr (.inl (Except.error.inj hcause).symm))
  | exited _ _ _ _ _ hexits =>
    cases hexits with
    | @notText e _ hreported => exact .inl ⟨e, (Except.error.inj hcause).symm, hreported⟩
    | hungUp _ _ _ => exact .inr (.inr (.inr (Except.error.inj hcause).symm))
    | notLoaded _ _ | illFormed _ _ | unfed _ _ _ | finished _ | interrupted _ _ _ => cases hcause

/-! ## Commands whose runs stop -/

/-- **The command breaks off for four reasons only.** Whatever arguments it accepts,
whatever is in the files and on standard input, if its runs stop then the command
exits, in one of the ways that are listed. A program that is not loaded, an
ill-formed instruction and missing input are reported on standard error with exit
code 1, as is an interrupt at a prompt, and no run is refused for another reason.
The exit code is 0 or 1, but where the program file is not text or has a name that
no file can have, where reading it breaks off at a token that is too long, where a
line is asked for behind the last one, or where a line that is to be written holds
an integer that is too long. -/
theorem command_exits (hread : grammar.read {} arguments = .ok settings)
    (hopened : files.read (Path.normalName settings.file) = opened)
    (hstops : Stops settings opened (Text.linesOf stdin)) :
    (∃ fuel report, command fuel arguments files stdin ending = some report) ∧
    ∀ fuel report, command fuel arguments files stdin ending = some report →
      Leaves fuel settings opened stdin ending report ∧
      (∀ cause, report.exit = .error cause →
        (∃ e, cause = .load e ∧ e.isReported = false) ∨ (∃ n, cause = .tokenTooLong n) ∨
          cause = .numberTooLong ∨ cause = .endOfInput) ∧
      (report.exit = .ok 0 ∨ report.exit = .ok 1 ↔
        ¬ (NotText opened ∨ TokenTooLong opened ∨ Deserted fuel settings opened stdin ending ∨
          LineTooLong fuel settings opened stdin ending)) := by
  constructor
  · by_cases hshort : TokenTooLong opened
    · obtain ⟨n, hn⟩ := hshort
      exact ⟨0, _, command_of_unread hread hopened hn⟩
    · obtain ⟨fuel, last, hplay⟩ := hstops.exists_play ending
      obtain ⟨report, hreport, -⟩ := exists_report hshort hplay
      refine ⟨fuel, report, ?_⟩
      rw [command_eq hread hopened hshort, hplay, Option.bind_some, hreport]
  · intro fuel report hreport
    have hleaves := leaves_of_command hread hopened hreport
    exact ⟨hleaves, fun _ => hleaves.cause_cases, hleaves.ok_iff⟩

/-- A file below the working directory is read by its name. -/
theorem read_ofList_singleton (bytes : List UInt8) :
    (Files.ofList [("p.txt", bytes)]).read (Path.normalName "p.txt") = .ok bytes := by
  have hname : Path.normalName "p.txt" = "p.txt" := by decide +kernel
  have hnul : "p.txt".contains '\x00' = false := by simp
  have hfind : (Files.ofList [("p.txt", bytes)]).find ["p.txt"] = .file bytes := by
    have hsteps : Files.steps "p.txt" = ["p.txt"] := by decide +kernel
    simp [Files.find, Files.ofList, hsteps]
  have hplace : (Files.ofList [("p.txt", bytes)]).resolve "p.txt" = .file bytes := by
    have hroot : "p.txt".startsWith "/" = false := by simp
    have hcomponents : Files.components "p.txt" = ["p.txt"] := by decide +kernel
    rw [Files.resolve, if_neg (by decide), if_neg (by decide), hroot, hcomponents]
    exact hfind
  rw [hname, Files.read, hnul, hplace]
  rfl

theorem not_tokenTooLong (h : Program.longTokenIn? opened = none) : ¬ TokenTooLong opened := by
  simp [tokenTooLong_iff, h]

/-- A program that outputs a value and halts is run without input. -/
theorem a_short_run_exits :
    ∃ fuel report, command fuel ["p.txt"]
        (Files.ofList [("p.txt", "104,7,99".toUTF8.data.toList)]) "" .endOfInput = some report ∧
      (report.exit = .ok 0 ∨ report.exit = .ok 1) := by
  have hread : grammar.read {} ["p.txt"] = .ok { file := "p.txt" } := by decide +kernel
  have hprogram : Program.ofFile (.ok "104,7,99".toUTF8.data.toList) = .ok [104, 7, 99] := by
    decide +kernel
  have hshort : ¬ TokenTooLong (.ok "104,7,99".toUTF8.data.toList) :=
    not_tokenTooLong (by decide +kernel)
  have hstops : Stops { file := "p.txt" } (.ok "104,7,99".toUTF8.data.toList)
      (Text.linesOf "") := by
    refine ⟨fun session hopening => ?_, fun _ read _ _ _ _ _ hlines => ?_⟩
    · obtain ⟨program, hfile, rfl⟩ := opening_eq_ok_iff.1 hopening
      obtain rfl := Except.ok.inj (hprogram.symm.trans hfile)
      exact ⟨2, _, rfl⟩
    · cases read <;> cases hlines
  have hlines : (play 2 { file := "p.txt" } (.ok "104,7,99".toUTF8.data.toList) ""
      .endOfInput).map (fun last => last.1.all Line.isWritable) = some true := by
    decide +kernel
  obtain ⟨last, hplay, hwritable⟩ := Option.map_eq_some_iff.1 hlines
  obtain ⟨report, hreport, -⟩ := exists_report hshort hplay
  have hcommand : command 2 ["p.txt"] (Files.ofList [("p.txt", "104,7,99".toUTF8.data.toList)]) ""
      .endOfInput = some report := by
    rw [command_eq hread (read_ofList_singleton _) hshort, hplay, Option.bind_some, hreport]
  refine ⟨2, report, hcommand, ?_⟩
  rw [((command_exits hread (read_ofList_singleton _) hstops).2 2 report hcommand).2.2]
  rintro (hnot | hlong | ⟨-, printed, session, hheard⟩ | ⟨last', hlast, line, hmem, hline⟩)
  · obtain ⟨e, hrefused, -⟩ := (notText_iff { file := "p.txt" }).1 hnot
    obtain ⟨cause, hcause, -⟩ := opening_eq_error_iff.1 hrefused
    cases hprogram.symm.trans hcause
  · exact hshort hlong
  · obtain ⟨rounds, hd⟩ := hheard.dialogue
    exact absurd rfl ((hd.one_run rfl).2 session)
  · obtain rfl := Option.some.inj (hplay.symm.trans hlast)
    rw [← isWritable_eq_false_iff, List.all_eq_true.1 hwritable line hmem] at hline
    cases hline

/-- **Three failures are not reported**: a program file that is not text, a token
of 4301 digits, and a prompt behind the last line. There is no exit code and
nothing on standard error. -/
theorem three_failures_are_not_reported :
    (command 9 ["p.txt"] (Files.ofList [("p.txt", [0x31, 0xff])]) "" .endOfInput).map
        (fun report => (report.out, report.err, report.exit.toOption)) = some ("", "", none) ∧
      (command 9 ["p.txt"] (Files.ofList
          [("p.txt", (String.ofList (List.replicate 4301 '1')).toUTF8.data.toList)]) ""
          .endOfInput).map (fun report => (report.out, report.err, report.exit.toOption)) =
        some ("", "", none) ∧
      (command 9 ["p.txt", "--mode", "interactive"]
          (Files.ofList [("p.txt", "3,0,99".toUTF8.data.toList)]) "" .endOfInput).map
        (fun report => (report.out, report.err, report.exit.toOption)) =
          some ("Input: ", "", none) := by
  have hfile : grammar.read {} ["p.txt"] = .ok { file := "p.txt" } := by decide +kernel
  have hasking : grammar.read {} ["p.txt", "--mode", "interactive"] =
      .ok { file := "p.txt", mode := .interactive } := by decide +kernel
  have hlong : Program.BreaksOffIn 4301
      (.ok (String.ofList (List.replicate 4301 '1')).toUTF8.data.toList) :=
    Program.breaksOffIn_ones (by decide)
  rw [command_eq hfile (read_ofList_singleton _) (not_tokenTooLong (by decide +kernel)),
    command_of_unread hfile (read_ofList_singleton _) hlong,
    command_eq hasking (read_ofList_singleton _) (not_tokenTooLong (by decide +kernel))]
  exact ⟨by decide +kernel, rfl, by decide +kernel⟩

end IntMachine.Runner
