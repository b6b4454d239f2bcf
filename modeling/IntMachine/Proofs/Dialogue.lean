import IntMachine.Proofs.Collected
import IntMachine.Runner.Command
/-!
# The runs of a dialogue

A dialogue is a sequence of runs: one when the program has been loaded, and one
for each answer that is an integer. `Dialogue` tells which runs have been made
when the dialogue stands where it does, one rule for each way to go on. Whatever
is played to its end is a dialogue (`exists_dialogue`), so what holds of a played
dialogue is proved rule by rule.
-/

namespace IntMachine.Runner

/-- A run made in a dialogue, with the machine it was made on. -/
structure Round where
  before : Machine
  ran : Outcome Machine MachineError RunEnd

/-- How the first run is made; the others stop where input is missing. -/
def Settings.firstMode (settings : Settings) : RunMode :=
  match settings.mode with
  | .halt => .toHalt
  | .interactive => .toInput

theorem firstMode_eq_toHalt_iff {settings : Settings} :
    settings.firstMode = .toHalt ↔ settings.mode = .halt := by
  rw [Settings.firstMode]
  cases settings.mode <;> simp

/-- One more run that gave a result. -/
theorem results_concat {rounds : List Round} {x : Round} {stop : RunEnd}
    (h : ∀ y ∈ rounds, ∃ stop, y.ran.result = .ok stop) (hx : x.ran.result = .ok stop) :
    ∀ y ∈ rounds ++ [x], ∃ stop, y.ran.result = .ok stop := by
  intro y hy
  rcases List.mem_append.1 hy with hy | hy
  · exact h y hy
  · obtain rfl := List.mem_singleton.1 hy
    exact ⟨stop, hx⟩

/-- The session that is about to make its first run. -/
def opening (settings : Settings) (opened : Program.Opened) : Except LoadError Session :=
  ((Session.start [] settings.limit settings.debug).loadFile (Path.normalName settings.file)
    opened).map (·.replaceInput settings.input)

/-- What is said of a program that was not loaded. -/
def refusal (e : LoadError) : Said :=
  if e.isReported then ([.failure e.message], .done 1 none) else ([], .crash (.load e))

/-- **Dialogues**, with the runs they have made so far. -/
inductive Dialogue (fuel : Nat) (settings : Settings) (opened : Program.Opened) :
    List Round → Said → Prop
  | notLoaded {e : LoadError} :
      opening settings opened = .error e → Dialogue fuel settings opened [] (refusal e)
  | started {session : Session} {ran : Outcome Machine MachineError RunEnd} {said : Said} :
      opening settings opened = .ok session →
      session.machine.run fuel settings.firstMode session.limit = some ran →
      proceed fuel settings settings.firstMode session = some said →
      Dialogue fuel settings opened [⟨session.machine, ran⟩] said
  | answered {rounds : List Round} {printed : Transcript} {session : Session} {v : Int}
      {ran : Outcome Machine MachineError RunEnd} {said : Said} :
      Dialogue fuel settings opened rounds (printed, .ask session) →
      (session.machine.feed [v]).run fuel .toInput session.limit = some ran →
      proceed fuel settings .toInput (session.feed [v]) = some said →
      Dialogue fuel settings opened (rounds ++ [⟨session.machine.feed [v], ran⟩])
        (Said.after printed said)
  | misheard {rounds : List Round} {printed : Transcript} {session : Session} (answer : String) :
      Dialogue fuel settings opened rounds (printed, .ask session) →
      Dialogue fuel settings opened rounds
        (Said.after printed ([.notInteger answer, .prompt], .ask session))
  | hungUp {rounds : List Round} {printed : Transcript} {session : Session} (ending : Ending) :
      Dialogue fuel settings opened rounds (printed, .ask session) →
      Dialogue fuel settings opened rounds (Said.after printed (hangUp session ending))

variable {fuel : Nat} {settings : Settings} {opened : Program.Opened}
variable {mode : RunMode} {session : Session} {said last : Said} {rounds : List Round}
variable {printed : Transcript} {ending : Ending} {lines : List String} {stdin : String}
variable {next : Session}

theorem Said.after_after (a b : Transcript) (said : Said) :
    Said.after a (Said.after b said) = Said.after (a ++ b) said := by
  simp [Said.after]

/-- **What the first run is made on**: a fresh machine with the program of the
file, and the input given beforehand. -/
theorem opening_eq_ok_iff : opening settings opened = .ok session ↔
    ∃ program, Program.ofFile opened = .ok program ∧
      session = (Session.start program settings.limit settings.debug).replaceInput
        settings.input := by
  rw [opening, Session.loadFile]
  cases Program.ofFile opened with
  | error e => simp [Except.map]
  | ok program => simp [Except.map, Session.withProgram, Session.reset, Session.start, eq_comm]

/-- What keeps a program from being loaded is what is wrong with its file. -/
theorem opening_eq_error_iff {e : LoadError} : opening settings opened = .error e ↔
    ∃ cause, Program.ofFile opened = .error cause ∧
      e = .file (Path.normalName settings.file) cause := by
  rw [opening, Session.loadFile]
  cases Program.ofFile opened with
  | error cause => simp [Except.map, eq_comm]
  | ok program => simp [Except.map]

/-- What is printed of a run that gave a result, before the dialogue goes on. -/
def printout (settings : Settings) (ran : Outcome Machine MachineError RunEnd) : Transcript :=
  report settings.debug ran.events ++ ran.after.output.pending.map .value

/-- **What is told of a run.** It was refused, or it waits for an answer, or the
dialogue ends with it. -/
inductive Told (settings : Settings) (session : Session)
    (ran : Outcome Machine MachineError RunEnd) : Said → Prop
  | refused {e : MachineError} :
      ran.result = .error e →
      Told settings session ran (Said.after (report settings.debug ran.events)
        (fail { session with machine := ran.after } e))
  | asked {stop : RunEnd} :
      ran.result = .ok stop → stop.stop = .awaitingInput →
      Told settings session ran (Said.after (printout settings ran)
        ([.prompt], .ask { session with machine := ran.after.collectOutput.2 }))
  | finished {stop : RunEnd} :
      ran.result = .ok stop → stop.stop ≠ .awaitingInput →
      Told settings session ran (Said.after (printout settings ran)
        ((finish settings { session with machine := ran.after.collectOutput.2 } stop).1,
          .done 0 (some { session with machine := ran.after.collectOutput.2 })))

/-- **How a refused run ends the dialogue**: with a failure that is told and exit
code 1, or by breaking off. -/
theorem fail_cases (session : Session) (e : MachineError) :
    (∃ message, fail session e = ([.failure message], .done 1 session)) ∨
      fail session e = ([], .crash (.machine e)) := by
  cases e with
  | inputRequired _ | inputExhausted _ | decode _ => exact .inl ⟨_, rfl⟩
  | stopped _ | alreadyHalted | invalidAddress _ | operandCount _ _ | noOperand => exact .inr rfl

theorem fail_ne_ask (session next : Session) (e : MachineError) :
    (fail session e).2 ≠ .ask next := by
  obtain ⟨message, h⟩ | h := fail_cases session e <;> simp [h]

/-- **Memory can be listed**, as a row has ten cells, so that a run which gave a
result ends the dialogue with exit code 0. -/
theorem finish_eq (settings : Settings) (session : Session) (stop : RunEnd) :
    finish settings session stop = ((finish settings session stop).1, .done 0 session) := by
  obtain ⟨text, hlisting⟩ : ∃ text, session.machine.memory.listing = .ok text := ⟨_, rfl⟩
  cases hdump : settings.dump <;> simp [finish, Said.after, hdump, hlisting]

/-- A run that ends is told of. -/
theorem exists_proceed {ran : Outcome Machine MachineError RunEnd} (settings : Settings)
    (h : session.machine.run fuel mode session.limit = some ran) :
    ∃ said, proceed fuel settings mode session = some said ∧ Told settings session ran said := by
  rw [proceed, h]
  refine ⟨_, rfl, ?_⟩
  dsimp only
  cases hresult : ran.result with
  | error e => exact .refused hresult
  | ok stop =>
    dsimp only [Session.collectOutput]
    rw [Said.after_after]
    split
    · rename_i hstop
      exact .asked hresult hstop
    · rename_i hstop
      rw [finish_eq]
      exact .finished hresult hstop

theorem told_of_run {ran : Outcome Machine MachineError RunEnd}
    (hran : session.machine.run fuel mode session.limit = some ran)
    (h : proceed fuel settings mode session = some said) : Told settings session ran said := by
  obtain ⟨said', hsaid, htold⟩ := exists_proceed settings hran
  obtain rfl := Option.some.inj (hsaid.symm.trans h)
  exact htold

/-- What is said is told of a run. -/
theorem exists_told (h : proceed fuel settings mode session = some said) :
    ∃ ran, session.machine.run fuel mode session.limit = some ran ∧
      Told settings session ran said := by
  cases hran : session.machine.run fuel mode session.limit with
  | none =>
    rw [proceed, hran] at h
    cases h
  | some ran => exact ⟨ran, rfl, told_of_run hran h⟩

theorem begin_cases (h : begin fuel settings opened = some said) :
    (∃ e, opening settings opened = .error e ∧ said = refusal e) ∨
    (∃ session, opening settings opened = .ok session ∧
      proceed fuel settings settings.firstMode session = some said) := by
  rw [begin] at h
  cases hload : (Session.start [] settings.limit settings.debug).loadFile
      (Path.normalName settings.file) opened with
  | error e =>
    simp only [hload] at h
    exact .inl ⟨e, by rw [opening, hload]; rfl, (Option.some.inj h).symm⟩
  | ok session =>
    simp only [hload] at h
    exact .inr ⟨_, by rw [opening, hload]; rfl, h⟩

/-- Once the program has been loaded it is run. -/
theorem begin_of_opening (h : opening settings opened = .ok session) :
    begin fuel settings opened = proceed fuel settings settings.firstMode session := by
  rw [opening] at h
  rw [begin]
  split
  · rename_i hload
    cases (congrArg (Except.map _) hload).symm.trans h
  · rename_i hload
    obtain rfl := Except.ok.inj ((congrArg (Except.map _) hload).symm.trans h)
    rfl

/-- A program that cannot be loaded ends the dialogue. -/
theorem begin_of_refused {e : LoadError} (h : opening settings opened = .error e) :
    begin fuel settings opened = some (refusal e) := by
  rw [opening] at h
  rw [begin]
  split
  · rename_i hload
    obtain rfl := Except.error.inj ((congrArg (Except.map _) hload).symm.trans h)
    rfl
  · rename_i hload
    cases (congrArg (Except.map _) hload).symm.trans h

theorem dialogue_of_begin (h : begin fuel settings opened = some said) :
    ∃ rounds, Dialogue fuel settings opened rounds said := by
  rcases begin_cases h with ⟨e, hopening, rfl⟩ | ⟨session, hopening, hproceed⟩
  · exact ⟨[], .notLoaded hopening⟩
  · obtain ⟨ran, hran, -⟩ := exists_told hproceed
    exact ⟨_, .started hopening hran hproceed⟩

theorem Dialogue.hear {line : String}
    (hd : Dialogue fuel settings opened rounds (printed, .ask session))
    (h : Runner.hear fuel settings session line = some said) :
    ∃ rounds', Dialogue fuel settings opened rounds' (Said.after printed said) := by
  rw [Runner.hear] at h
  cases hanswer : Text.readLoose? (Text.trim line.toList) with
  | none =>
    simp only [hanswer] at h
    obtain rfl := Option.some.inj h
    exact ⟨rounds, hd.misheard _⟩
  | some v =>
    simp only [hanswer] at h
    obtain ⟨ran, hran, -⟩ := exists_told h
    exact ⟨_, hd.answered hran h⟩

theorem Dialogue.converse (hd : Dialogue fuel settings opened rounds said)
    (h : Runner.converse fuel settings ending lines said = some last) :
    ∃ rounds', Dialogue fuel settings opened rounds' last := by
  induction lines generalizing rounds said with
  | nil =>
    obtain ⟨printed, turn⟩ := said
    cases turn with
    | ask session =>
      obtain rfl := Option.some.inj h
      exact ⟨rounds, hd.hungUp ending⟩
    | done _ _ | crash _ =>
      obtain rfl := Option.some.inj h
      exact ⟨rounds, hd⟩
  | cons line rest ih =>
    obtain ⟨printed, turn⟩ := said
    cases turn with
    | ask session =>
      rw [Runner.converse] at h
      cases hsaid : Runner.hear fuel settings session line with
      | none => simp [hsaid] at h
      | some said =>
        simp only [hsaid] at h
        obtain ⟨rounds', hd'⟩ := hd.hear hsaid
        exact ih hd' h
    | done _ _ | crash _ =>
      obtain rfl := Option.some.inj h
      exact ⟨rounds, hd⟩

/-- **What is played is a dialogue.** -/
theorem exists_dialogue (h : play fuel settings opened stdin ending = some said) :
    ∃ rounds, Dialogue fuel settings opened rounds said := by
  rw [play] at h
  cases hbegin : begin fuel settings opened with
  | none => simp [hbegin] at h
  | some first =>
    simp only [hbegin] at h
    obtain ⟨rounds, hd⟩ := dialogue_of_begin hbegin
    exact hd.converse h

/-- Only a dialogue that is done has an exit code. -/
theorem exists_done {played : Option Said} {code : Nat}
    (h : played.map (fun said => (said.1, said.2.exit?.map (·.toOption))) =
      some (printed, some (some code))) :
    ∃ session?, played = some (printed, .done code session?) := by
  obtain ⟨⟨t, turn⟩, rfl, hend⟩ := Option.map_eq_some_iff.1 h
  obtain ⟨rfl, hexit⟩ := Prod.mk.inj hend
  cases turn with
  | ask session => simp [Turn.exit?] at hexit
  | crash e => simp [Turn.exit?, Except.toOption] at hexit
  | done code' session? =>
    obtain rfl : code' = code := by simpa [Turn.exit?, Except.toOption] using hexit
    exact ⟨session?, rfl⟩

/-! ## Sessions that ask -/

/-- The session is bound to the limit of the settings, and its machine waits
for input. -/
structure Asking (settings : Settings) (session : Session) : Prop where
  limit : session.limit = settings.limit
  starved : session.machine.Starved

theorem Asking.active (h : Asking settings session) (vs : List Int) :
    (session.machine.feed vs).Active := h.starved.active

/-- A run that ends with a prompt leaves a session that asks. -/
theorem asking_of_proceed (hlimit : session.limit = settings.limit)
    (hactive : session.machine.Active)
    (h : proceed fuel settings mode session = some said) (hask : said.2 = .ask next) :
    Asking settings next := by
  obtain ⟨ran, hran, htold⟩ := exists_told h
  cases htold with
  | refused => exact absurd hask (fail_ne_ask _ _ _)
  | finished => cases hask
  | asked hresult hstop =>
    cases hask
    refine ⟨hlimit, ?_⟩
    cases Machine.run_ended hactive hran with
    | suspended _ _ hstarved => exact (Machine.alike_collectOutput _).starved hstarved
    | refused hr | exhausted _ hr => cases hr.symm.trans hresult
    | cut hr | halted hr | output _ hr =>
      obtain rfl := Except.ok.inj (hr.symm.trans hresult)
      cases hstop

/-- **A run to the end is not followed by a prompt.** -/
theorem not_ask_of_toHalt (hactive : session.machine.Active)
    (h : proceed fuel settings .toHalt session = some said) : said.2 ≠ .ask next := by
  obtain ⟨ran, hran, htold⟩ := exists_told h
  cases htold with
  | refused => exact fail_ne_ask _ _ _
  | finished => rintro ⟨⟩
  | asked hresult hstop => exact absurd hstop (Machine.stop_ne_awaitingInput hactive hran hresult)

/-- The machine of an opened session is about to run, within the limit of the
settings. -/
theorem opening_limit (h : opening settings opened = .ok session) :
    session.limit = settings.limit ∧ session.machine.activity = .running := by
  obtain ⟨program, -, rfl⟩ := opening_eq_ok_iff.1 h
  exact ⟨rfl, rfl⟩

/-- **Every session that asks is bound to the limit and waits.** -/
theorem Dialogue.asking (h : Dialogue fuel settings opened rounds said)
    (hask : said.2 = .ask next) : Asking settings next := by
  induction h generalizing next with
  | @notLoaded e _ =>
    rw [refusal] at hask
    split at hask <;> cases hask
  | started hopening _ hproceed =>
    obtain ⟨hlimit, hrunning⟩ := opening_limit hopening
    exact asking_of_proceed hlimit (.inl hrunning) hproceed hask
  | @answered rounds printed session v ran said _ _ hproceed ih =>
    have hasked := ih rfl
    have hlimit : (session.feed [v]).limit = settings.limit := hasked.limit
    exact asking_of_proceed hlimit (hasked.active [v]) hproceed hask
  | misheard _ _ ih => exact ih hask
  | hungUp ending _ _ => cases ending <;> cases hask

/-- **Every run is made within the limit**, on a machine that can be run. -/
theorem Dialogue.ran (h : Dialogue fuel settings opened rounds said) :
    ∀ x ∈ rounds, x.before.Active ∧ ∃ mode, x.before.run fuel mode settings.limit = some x.ran := by
  induction h with
  | notLoaded _ => simp
  | started hopening hran _ =>
    obtain ⟨hlimit, hrunning⟩ := opening_limit hopening
    rintro x hx
    obtain rfl := List.mem_singleton.1 hx
    exact ⟨.inl hrunning, _, hlimit ▸ hran⟩
  | answered hd hran _ ih =>
    have hasked := hd.asking rfl
    intro x hx
    rcases List.mem_append.1 hx with hx | hx
    · exact ih x hx
    · obtain rfl := List.mem_singleton.1 hx
      exact ⟨hasked.active _, _, hasked.limit ▸ hran⟩
  | misheard _ _ ih => exact ih
  | hungUp _ _ ih => exact ih

/-- **Where all input is given beforehand there is one run at most**, and no
prompt. -/
theorem Dialogue.one_run (h : Dialogue fuel settings opened rounds said)
    (hmode : settings.mode = .halt) : rounds.length ≤ 1 ∧ ∀ session, said.2 ≠ .ask session := by
  have hfirst : settings.firstMode = .toHalt := firstMode_eq_toHalt_iff.2 hmode
  induction h with
  | @notLoaded e _ =>
    rw [refusal]
    split <;> simp
  | started hopening hran hproceed =>
    rw [hfirst] at hproceed
    exact ⟨Nat.le_refl 1, fun _ => not_ask_of_toHalt (.inl (opening_limit hopening).2) hproceed⟩
  | answered _ _ _ ih => exact absurd rfl (ih.2 _)
  | misheard _ _ ih => exact absurd rfl (ih.2 _)
  | hungUp _ _ ih => exact absurd rfl (ih.2 _)

/-! ## Lines that runs end with -/

/-- The journal is printed as records or as alarms. -/
theorem mem_report {debug : Bool} {events : Array Event} {line : Line}
    (h : line ∈ report debug events) : ∃ r, line = .record r ∨ line = .alarm r := by
  unfold report at h
  split at h
  · obtain ⟨r, -, rfl⟩ := List.mem_map.1 h
    exact ⟨r, .inl rfl⟩
  · obtain ⟨r, -, rfl⟩ := List.mem_map.1 h
    exact ⟨r, .inr rfl⟩

theorem mem_printout {ran : Outcome Machine MachineError RunEnd} {line : Line}
    (h : line ∈ printout settings ran) :
    (∃ r, line = .record r ∨ line = .alarm r) ∨ ∃ v, line = .value v := by
  rcases List.mem_append.1 h with h | h
  · exact .inl (mem_report h)
  · obtain ⟨v, -, rfl⟩ := List.mem_map.1 h
    exact .inr ⟨v, rfl⟩

/-- A dialogue that ends with a result says that the limit was reached, if it was,
and lists memory, if it is to. -/
theorem mem_finish {stop : RunEnd} {line : Line} (h : line ∈ (finish settings session stop).1) :
    (stop.stop = .stepLimit ∧ line = .limitReached stop.steps session.machine.pc) ∨
      ∃ text, line = .listing text := by
  rcases List.mem_append.1 h with h | h
  · split at h
    · rename_i hstop
      exact .inl ⟨hstop, List.mem_singleton.1 h⟩
    · cases h
  · split at h
    · split at h
      · exact .inr ⟨_, List.mem_singleton.1 h⟩
      · cases h
    · cases h

end IntMachine.Runner
