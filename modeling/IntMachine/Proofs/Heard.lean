import IntMachine.Proofs.Dialogue
/-!
# Lines heard

`Heard` tells what has been said when a number of lines have been read, one for
each prompt. A dialogue that is played on given lines has read the first of them
(`play_cases`), more fuel does not change what it says (`Heard.mono`), and it has
prompted once for each line (`Heard.prompted`).
-/

namespace IntMachine.Runner

/-- What has been said when these lines have been read. -/
inductive Heard (fuel : Nat) (settings : Settings) (opened : Program.Opened) :
    List String → Said → Prop
  | begun {said : Said} :
      begin fuel settings opened = some said → Heard fuel settings opened [] said
  | heard {lines : List String} {line : String} {printed : Transcript} {session : Session}
      {said : Said} :
      Heard fuel settings opened lines (printed, .ask session) →
      hear fuel settings session line = some said →
      Heard fuel settings opened (lines ++ [line]) (Said.after printed said)

/-- The integers among the lines. -/
def answers (lines : List String) : List Int :=
  lines.filterMap fun line => Text.readLoose? (Text.trim line.toList)

@[simp] theorem answers_append (lines more : List String) :
    answers (lines ++ more) = answers lines ++ answers more := List.filterMap_append ..

variable {fuel more n : Nat} {settings : Settings} {opened : Program.Opened}
variable {mode : RunMode} {session : Session} {said last : Said}
variable {printed : Transcript} {ending : Ending} {lines rest : List String} {stdin line : String}

/-- **What is said to a line.** It is asked for again, or the program runs on. -/
theorem hear_cases (h : hear fuel settings session line = some said) :
    (answers [line] = [] ∧ ∃ answer, said = ([.notInteger answer, .prompt], .ask session)) ∨
    (∃ v, answers [line] = [v] ∧ proceed fuel settings .toInput (session.feed [v]) = some said) := by
  rw [hear] at h
  cases hanswer : Text.readLoose? (Text.trim line.toList) with
  | none =>
    simp only [hanswer, Option.some.injEq] at h
    exact .inl ⟨by simp [answers, hanswer], _, h.symm⟩
  | some v =>
    simp only [hanswer] at h
    exact .inr ⟨v, by simp [answers, hanswer], h⟩

/-! ## More fuel -/

theorem proceed_mono (h : proceed fuel settings mode session = some said) (hle : fuel ≤ more) :
    proceed more settings mode session = some said := by
  obtain ⟨ran, hran, -⟩ := exists_told h
  rw [proceed, hran] at h
  rwa [proceed, Machine.run_mono hran hle]

theorem begin_mono (h : begin fuel settings opened = some said) (hle : fuel ≤ more) :
    begin more settings opened = some said := by
  rw [begin] at h ⊢
  split at h
  · exact h
  · exact proceed_mono h hle

theorem hear_mono (h : hear fuel settings session line = some said) (hle : fuel ≤ more) :
    hear more settings session line = some said := by
  rw [hear] at h ⊢
  split at h
  · exact h
  · exact proceed_mono h hle

theorem Heard.mono (h : Heard fuel settings opened lines said) (hle : fuel ≤ more) :
    Heard more settings opened lines said := by
  induction h with
  | begun hbegin => exact .begun (begin_mono hbegin hle)
  | heard _ hhear ih => exact .heard ih (hear_mono hhear hle)

theorem converse_mono (h : converse fuel settings ending lines said = some last)
    (hle : fuel ≤ more) : converse more settings ending lines said = some last := by
  induction lines generalizing said with
  | nil =>
    obtain ⟨printed, turn⟩ := said
    cases turn <;> exact h
  | cons line rest ih =>
    obtain ⟨printed, turn⟩ := said
    cases turn with
    | ask session =>
      rw [converse] at h ⊢
      cases hsaid : hear fuel settings session line with
      | none => simp [hsaid] at h
      | some said =>
        simp only [hsaid] at h
        simp only [hear_mono hsaid hle]
        exact ih h
    | done _ _ | crash _ => exact h

/-! ## Played lines -/

/-- Nothing more is said where nothing is asked. -/
theorem converse_of_not_ask (h : ∀ session, said.2 ≠ .ask session) :
    converse fuel settings ending lines said = some said := by
  obtain ⟨printed, turn⟩ := said
  cases turn with
  | ask session => exact absurd rfl (h session)
  | done _ _ | crash _ => cases lines <;> rfl

/-- **A dialogue that is played on after some lines** reads more of them, until it
ends by itself or they are all read. -/
theorem Heard.converse (hd : Heard fuel settings opened lines said)
    (h : Runner.converse fuel settings ending rest said = some last) :
    ∃ read unread, rest = read ++ unread ∧
      ((Heard fuel settings opened (lines ++ read) last ∧ ∀ session, last.2 ≠ .ask session) ∨
       (unread = [] ∧ ∃ printed session,
        Heard fuel settings opened (lines ++ read) (printed, .ask session) ∧
        last = Said.after printed (hangUp session ending))) := by
  induction rest generalizing lines said with
  | nil =>
    obtain ⟨printed, turn⟩ := said
    refine ⟨[], [], rfl, ?_⟩
    rw [List.append_nil]
    cases turn with
    | ask session => exact .inr ⟨rfl, printed, session, hd, (Option.some.inj h).symm⟩
    | done _ _ | crash _ =>
      obtain rfl := Option.some.inj h
      exact .inl ⟨hd, by simp⟩
  | cons line rest ih =>
    obtain ⟨printed, turn⟩ := said
    cases turn with
    | ask session =>
      rw [Runner.converse] at h
      cases hsaid : hear fuel settings session line with
      | none => simp [hsaid] at h
      | some said =>
        simp only [hsaid] at h
        obtain ⟨read, unread, rfl, hlast⟩ := ih (hd.heard hsaid) h
        refine ⟨line :: read, unread, rfl, ?_⟩
        rwa [List.append_assoc] at hlast
    | done _ _ | crash _ =>
      obtain rfl := Option.some.inj h
      exact ⟨[], line :: rest, rfl, .inl ⟨by rwa [List.append_nil], by simp⟩⟩

/-- **How a dialogue is played**: it reads the first lines, and ends by itself or
when a line is asked for and there is none. -/
theorem play_cases (h : play fuel settings opened stdin ending = some last) :
    ∃ read unread, Text.linesOf stdin = read ++ unread ∧
      ((Heard fuel settings opened read last ∧ ∀ session, last.2 ≠ .ask session) ∨
       (unread = [] ∧ ∃ printed session,
        Heard fuel settings opened read (printed, .ask session) ∧
        last = Said.after printed (hangUp session ending))) := by
  rw [play] at h
  cases hbegin : begin fuel settings opened with
  | none => simp [hbegin] at h
  | some said =>
    simp only [hbegin] at h
    exact (Heard.begun hbegin).converse h

/-- **What has been heard is played**: the dialogue goes on with the rest of the
lines. -/
theorem Heard.play_eq (h : Heard fuel settings opened lines said)
    (hlines : Text.linesOf stdin = lines ++ rest) :
    play fuel settings opened stdin ending = Runner.converse fuel settings ending rest said := by
  induction h generalizing rest with
  | begun hbegin =>
    rw [play, hbegin, hlines]
    rfl
  | @heard lines line printed session said _ hhear ih =>
    rw [List.append_assoc] at hlines
    rw [ih hlines, List.singleton_append, Runner.converse, hhear]

theorem Heard.dialogue (h : Heard fuel settings opened lines said) :
    ∃ rounds, Dialogue fuel settings opened rounds said := by
  induction h with
  | begun hbegin => exact dialogue_of_begin hbegin
  | heard _ hhear ih =>
    obtain ⟨rounds, hd⟩ := ih
    exact hd.hear hhear

/-- A session that asks after some lines is bound to the limit and waits. -/
theorem Heard.asking (h : Heard fuel settings opened lines (printed, .ask session)) :
    Asking settings session := by
  obtain ⟨rounds, hd⟩ := h.dialogue
  exact hd.asking rfl

/-- Where all input is given beforehand no line is read. -/
theorem Heard.eq_nil (h : Heard fuel settings opened lines said) (hmode : settings.mode = .halt) :
    lines = [] := by
  cases h with
  | begun _ => rfl
  | heard hprev _ =>
    obtain ⟨rounds, hd⟩ := hprev.dialogue
    exact absurd rfl ((hd.one_run hmode).2 _)

/-! ## Prompts and listings -/

/-- The number of prompts printed. -/
def Transcript.prompts (t : Transcript) : Nat := t.count .prompt

/-- The listing on a line, if it is one. -/
def Line.listing? : Line → Option String
  | .listing text => some text
  | _ => none

/-- The listings printed. -/
def Transcript.listings (t : Transcript) : List String := t.filterMap Line.listing?

/-- What is listed of a memory at the end. -/
def Settings.dumped (settings : Settings) (memory : Memory) : List String :=
  if settings.dump then memory.listing.toOption.toList else []

@[simp] theorem prompts_append (t u : Transcript) :
    Transcript.prompts (t ++ u) = t.prompts + u.prompts := List.count_append

@[simp] theorem listings_append (t u : Transcript) :
    Transcript.listings (t ++ u) = t.listings ++ u.listings := List.filterMap_append ..

/-- Lines that are neither prompts nor listings. -/
def Plain (t : Transcript) : Prop := ∀ line ∈ t, line ≠ .prompt ∧ line.listing? = none

theorem Plain.prompts {t : Transcript} (h : Plain t) : t.prompts = 0 :=
  List.count_eq_zero.2 fun hline => (h _ hline).1 rfl

theorem Plain.listings {t : Transcript} (h : Plain t) : t.listings = [] :=
  List.filterMap_eq_nil_iff.2 fun line hline => (h line hline).2

theorem plain_report (debug : Bool) (events : Array Event) : Plain (report debug events) := by
  intro line hline
  obtain ⟨r, rfl | rfl⟩ := mem_report hline <;> exact ⟨by simp, rfl⟩

theorem plain_printout (settings : Settings) (ran : Outcome Machine MachineError RunEnd) :
    Plain (printout settings ran) := by
  intro line hline
  obtain ⟨r, rfl | rfl⟩ | ⟨v, rfl⟩ := mem_printout hline <;> exact ⟨by simp, rfl⟩

theorem prompts_finish (settings : Settings) (session : Session) (stop : RunEnd) :
    (finish settings session stop).1.prompts = 0 := by
  refine List.count_eq_zero.2 fun hline => ?_
  obtain ⟨-, h⟩ | ⟨text, h⟩ := mem_finish hline <;> cases h

theorem listings_finish (settings : Settings) (session : Session) (stop : RunEnd) :
    (finish settings session stop).1.listings = settings.dumped session.machine.memory := by
  rw [finish, Said.after, listings_append]
  have hlimit : (if stop.stop = .stepLimit then
      [Line.limitReached stop.steps session.machine.pc] else []).filterMap Line.listing? = [] := by
    split <;> rfl
  rw [Transcript.listings, hlimit, List.nil_append, Settings.dumped]
  split
  · cases session.machine.memory.listing <;> rfl
  · rfl

/-- The prompts and listings of a dialogue in which a number of lines has been
read. -/
def Prompted (settings : Settings) (n : Nat) : Said → Prop
  | (printed, .ask _) => printed.prompts = n + 1 ∧ printed.listings = []
  | (printed, .done code session?) => printed.prompts = n ∧
    (code = 0 → ∃ session, session? = some session ∧
      printed.listings = settings.dumped session.machine.memory)
  | (printed, .crash _) => printed.prompts = n

/-- **One run prompts at most once, at its end**, and lists memory only where it
ends the dialogue. -/
theorem prompted_proceed (hprompts : printed.prompts = n) (hlistings : printed.listings = [])
    (h : proceed fuel settings mode session = some said) :
    Prompted settings n (Said.after printed said) := by
  obtain ⟨ran, -, htold⟩ := exists_told h
  have hprintout := plain_printout settings ran
  cases htold with
  | @refused e _ =>
    have hreport : Transcript.prompts (printed ++ report settings.debug ran.events) = n := by
      rw [prompts_append, hprompts, (plain_report settings.debug ran.events).prompts, Nat.add_zero]
    rw [Said.after_after]
    obtain ⟨message, hfail⟩ | hfail := fail_cases { session with machine := ran.after } e
    · rw [hfail]
      refine ⟨?_, fun h => absurd h (by decide)⟩
      rw [prompts_append, hreport]
      rfl
    · rw [hfail, Said.after, List.append_nil]
      exact hreport
  | asked _ _ =>
    have hprompt : Transcript.prompts [.prompt] = 1 := rfl
    have hlisting : Transcript.listings [.prompt] = [] := rfl
    rw [Said.after_after]
    constructor
    · simp [hprompts, hprintout.prompts, hprompt]
    · simp [hlistings, hprintout.listings, hlisting]
  | finished _ _ =>
    rw [Said.after_after]
    refine ⟨?_, fun _ => ⟨_, rfl, ?_⟩⟩
    · simp [hprompts, hprintout.prompts, prompts_finish]
    · simp [hlistings, hprintout.listings, listings_finish]

/-- **Every line read has its prompt**, and memory is listed at the end only. -/
theorem Heard.prompted (h : Heard fuel settings opened lines said) :
    Prompted settings lines.length said := by
  induction h with
  | begun hbegin =>
    rcases begin_cases hbegin with ⟨e, -, rfl⟩ | ⟨session, -, hproceed⟩
    · rw [refusal]
      split
      · exact ⟨rfl, fun h => absurd h (by decide)⟩
      · rfl
    · have hprompts : Transcript.prompts [] = 0 := rfl
      have hlistings : Transcript.listings [] = [] := rfl
      exact prompted_proceed hprompts hlistings hproceed
  | heard _ hhear ih =>
    obtain ⟨hprompts, hlistings⟩ := ih
    rw [List.length_append, List.length_singleton]
    rcases hear_cases hhear with ⟨-, answer, rfl⟩ | ⟨v, -, hproceed⟩
    · refine ⟨?_, ?_⟩
      · rw [prompts_append, hprompts]
        rfl
      · rw [listings_append, hlistings]
        rfl
    · exact prompted_proceed hprompts hlistings hproceed

end IntMachine.Runner
