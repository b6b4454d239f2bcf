import IntMachine.Proofs.Halting
import IntMachine.Proofs.Heard
import IntMachine.Proofs.Printed
/-!
# The two modes

Input may be given beforehand, or typed when it is asked for; lines that are no
integers only make the question come again. It makes no difference to the program
which of its input is given in which way (`modes_agree`): a dialogue comes to a
halt exactly if the machine does that has all of the input from the start
(`exists_halts_iff`), and prints what that machine outputs.
-/

namespace IntMachine.Runner

variable {fuel n : Nat} {settings : Settings} {opened : Program.Opened}
variable {mode : RunMode} {session first : Session} {said : Said}
variable {printed : Transcript} {ending : Ending} {lines : List String} {stdin : String}
variable {m c d : Machine} {is : List Instruction} {us ws : List Int}
variable {ran : Outcome Machine MachineError RunEnd}

/-! ## What has been executed -/

/-- The dialogue follows the machine: it has become one like that of the session
that asks, or halts as one like that of the session in the end. -/
def Tracks (m : Machine) : Turn → Prop
  | .ask session => ∃ is c, m.Follows is c ∧ c.Alike session.machine
  | .done code (some session) => code = 0 → session.machine.isHalted = true →
    ∃ d, m.HaltsAt d ∧ d.Alike session.machine
  | _ => True

/-- **One run follows the machine.** -/
theorem tracks_proceed (hfollows : m.Follows is c) (halike : c.Alike session.machine)
    (hactive : session.machine.Active)
    (h : proceed fuel settings mode session = some said) : Tracks m said.2 := by
  obtain ⟨ran, hran, htold⟩ := exists_told h
  have hcollected := Machine.alike_collectOutput ran.after
  cases htold with
  | @refused e _ =>
    rw [Said.after]
    obtain ⟨message, hfail⟩ | hfail := fail_cases { session with machine := ran.after } e
    · rw [hfail]
      exact fun h => absurd h (by decide)
    · rw [hfail]
      trivial
  | asked _ _ =>
    -- output has been collected at each prompt, so the two are alike and not the same
    obtain ⟨js, hran', -⟩ := Machine.run_follows hran
    obtain ⟨e, hce, he⟩ := hran'.alike halike.symm
    exact ⟨_, e, hfollows.trans hce, he.symm.trans hcollected⟩
  | finished _ _ =>
    intro _ hhalted
    have hat : session.machine.HaltsAt ran.after := Machine.haltsAt_of_run hactive hran hhalted
    obtain ⟨e, hce, he⟩ := hat.alike halike.symm
    exact ⟨e, hce.of_follows hfollows (halike.symm.active hactive), he.symm.trans hcollected⟩

/-- **Typed input is input.** What is said after some lines follows the machine
that has had the integers among them from the start. -/
theorem Heard.tracks (hopening : opening settings opened = .ok first)
    (h : Heard fuel settings opened lines said) :
    Tracks (first.machine.feed (answers lines)) said.2 := by
  induction h with
  | begun hbegin =>
    rcases begin_cases hbegin with ⟨e, hrefused, -⟩ | ⟨session, hopened, hproceed⟩
    · cases hopening.symm.trans hrefused
    · obtain rfl := Except.ok.inj (hopening.symm.trans hopened)
      have hactive : first.machine.Active := .inl (opening_limit hopening).2
      rw [answers, List.filterMap_nil, Machine.feed_nil]
      exact tracks_proceed (.refl _) (.refl _) hactive hproceed
  | @heard lines line printed session said hprev hhear ih =>
    obtain ⟨is, c, hfollows, halike⟩ := ih
    rw [answers_append]
    rcases hear_cases hhear with ⟨hnone, answer, rfl⟩ | ⟨v, hv, hproceed⟩
    · rw [hnone, List.append_nil]
      exact ⟨is, c, hfollows, halike⟩
    · rw [hv, Machine.feed_append]
      have hfed : (c.feed [v]).Alike (session.feed [v]).machine := halike.feed [v]
      exact (tracks_proceed (hfollows.feed [v]) hfed (hprev.asking.active [v]) hproceed :)

/-! ## Coming to a halt -/

/-- The dialogue ends with exit code 0 and a machine that has halted. -/
structure Halts (settings : Settings) (opened : Program.Opened) (stdin : String) (ending : Ending)
    (printed : Transcript) (session : Session) : Prop where
  played : ∃ fuel, play fuel settings opened stdin ending = some (printed, .done 0 session)
  halted : session.machine.isHalted = true

/-- Whether the runner has ended with exit code 0 and a machine that has halted. -/
def Turn.halted : Turn → Bool
  | .done 0 (some session) => session.machine.isHalted
  | _ => false

/-- What is seen to come to a halt does. -/
theorem exists_halts {vs : List Int}
    (h : (play fuel settings opened stdin ending).map (fun said => (said.1.values, said.2.halted)) =
      some (vs, true)) :
    ∃ printed session, Halts settings opened stdin ending printed session ∧ printed.values = vs := by
  obtain ⟨⟨printed, turn⟩, hplay, hend⟩ := Option.map_eq_some_iff.1 h
  obtain ⟨hvalues, hhalted⟩ := Prod.mk.inj hend
  unfold Turn.halted at hhalted
  split at hhalted
  · rename_i session hturn
    obtain rfl : turn = .done 0 (some session) := hturn
    exact ⟨printed, session, ⟨⟨fuel, hplay⟩, hhalted⟩, hvalues⟩
  · cases hhalted

/-- The input that is typed. -/
def Settings.typed (settings : Settings) (stdin : String) : List Int :=
  match settings.mode with
  | .halt => []
  | .interactive => answers (Text.linesOf stdin)

/-- A run to a halt ends the dialogue. -/
theorem exists_proceed_of_halted (settings : Settings)
    (h : session.machine.run fuel mode session.limit = some ran)
    (hresult : ran.result = .ok ⟨.halted, n⟩) (hhalted : ran.after.isHalted = true) :
    ∃ printed next, proceed fuel settings mode session = some (printed, .done 0 (some next)) ∧
      next.machine.isHalted = true := by
  obtain ⟨said, hsaid, htold⟩ := exists_proceed settings h
  cases htold with
  | refused hrefused => cases hresult.symm.trans hrefused
  | asked hasked hstop =>
    obtain rfl := Except.ok.inj (hresult.symm.trans hasked)
    cases hstop
  | finished _ _ => exact ⟨_, _, hsaid, hhalted⟩

/-- A run that stops for want of input ends with a prompt. -/
theorem exists_proceed_of_starved (settings : Settings)
    (h : session.machine.run fuel mode session.limit = some ran)
    (hresult : ran.result = .ok ⟨.awaitingInput, n⟩) :
    ∃ printed next, proceed fuel settings mode session = some (printed, .ask next) ∧
      next.limit = session.limit ∧ ran.after.Alike next.machine := by
  obtain ⟨said, hsaid, htold⟩ := exists_proceed settings h
  cases htold with
  | refused hrefused => cases hresult.symm.trans hrefused
  | asked _ _ => exact ⟨_, _, hsaid, rfl, Machine.alike_collectOutput _⟩
  | finished hfinished hstop =>
    obtain rfl := Except.ok.inj (hresult.symm.trans hfinished)
    exact absurd rfl hstop

/-- **A machine that halts on enough input** runs to its halt, or asks for what it
lacks. -/
theorem exists_proceed_of_haltsAt (settings : Settings) (hlimit : session.limit = none)
    (hactive : session.machine.Active) (h : (session.machine.feed ws).HaltsAt d) :
    ∃ fuel printed turn, proceed fuel settings .toInput session = some (printed, turn) ∧
      ((∃ next, turn = .done 0 (some next) ∧ next.machine.isHalted = true) ∨
       (∃ next e, turn = .ask next ∧ next.limit = none ∧ next.machine.Starved ∧
        (next.machine.feed ws).HaltsAt e)) := by
  obtain ⟨fuel, ran, hran, hend⟩ := Machine.exists_run_of_haltsAt hactive h
  rw [← hlimit] at hran
  refine ⟨fuel, ?_⟩
  rcases hend with ⟨⟨is, -, hhalted⟩, -, n, hresult⟩ | ⟨hstarved, hhalts, n, hresult⟩
  · obtain ⟨printed, next, hsaid, hnext⟩ := exists_proceed_of_halted settings hran hresult hhalted
    exact ⟨printed, _, hsaid, .inl ⟨next, rfl, hnext⟩⟩
  · obtain ⟨printed, next, hsaid, hnext, halike⟩ :=
      exists_proceed_of_starved settings hran hresult
    obtain ⟨e, he, -⟩ := hhalts.alike (halike.feed ws)
    exact ⟨printed, _, hsaid, .inr ⟨next, e, rfl, hnext.trans hlimit, halike.starved hstarved, he⟩⟩

/-- **A dialogue that asks comes to a halt** if its machine does on the integers
among the lines. -/
theorem exists_converse_of_haltsAt (settings : Settings) (ending : Ending)
    (hlimit : session.limit = none) (hstarved : session.machine.Starved)
    (h : (session.machine.feed (answers lines)).HaltsAt d) (printed : Transcript) :
    ∃ fuel printed' next, converse fuel settings ending lines (printed, .ask session) =
      some (printed', .done 0 (some next)) ∧ next.machine.isHalted = true := by
  induction lines generalizing session d printed with
  | nil =>
    -- with no line left the machine would have to halt on the input it lacks
    rw [answers, List.filterMap_nil, Machine.feed_nil] at h
    exact absurd h hstarved.not_haltsAt
  | cons line rest ih =>
    have hsplit : answers (line :: rest) = answers [line] ++ answers rest :=
      answers_append [line] rest
    cases hanswer : Text.readLoose? (Text.trim line.toList) with
    | none =>
      have hnone : answers [line] = [] := by simp [answers, hanswer]
      rw [hsplit, hnone, List.nil_append] at h
      obtain ⟨fuel, printed', next, hlast, hhalted⟩ := ih hlimit hstarved h
        (printed ++ [.notInteger (String.ofList (Text.trim line.toList)), .prompt])
      refine ⟨fuel, printed', next, ?_, hhalted⟩
      simp only [converse, hear, hanswer]
      exact hlast
    | some v =>
      have hv : answers [line] = [v] := by simp [answers, hanswer]
      rw [hsplit, hv, Machine.feed_append] at h
      have hfed : (session.feed [v]).limit = none := hlimit
      have hactive : (session.feed [v]).machine.Active := hstarved.active
      obtain ⟨fuel, said, turn, hsaid, hturn⟩ :=
        exists_proceed_of_haltsAt settings hfed hactive h
      rcases hturn with ⟨next, rfl, hhalted⟩ | ⟨next, e, rfl, hnext, hstarved', he⟩
      · refine ⟨fuel, printed ++ said, next, ?_, hhalted⟩
        simp only [converse, hear, hanswer, hsaid]
        exact converse_of_not_ask (by simp [Said.after])
      · obtain ⟨fuel', printed', last, hlast, hhalted⟩ := ih hnext hstarved' he (printed ++ said)
        refine ⟨max fuel fuel', printed', last, ?_, hhalted⟩
        simp only [converse, hear, hanswer, proceed_mono hsaid (Nat.le_max_left ..)]
        exact converse_mono hlast (Nat.le_max_right ..)

/-- **A dialogue that comes to a halt has followed the machine** that has all
input from the start, and has read some of the lines, each after a prompt. -/
theorem Halts.haltsAt (h : Halts settings opened stdin ending printed session)
    (hopening : opening settings opened = .ok first) :
    ∃ d, (first.machine.feed (settings.typed stdin)).HaltsAt d ∧
      d.memory = session.machine.memory ∧ d.output.sent = session.machine.output.sent := by
  obtain ⟨⟨fuel, hplay⟩, hhalted⟩ := h
  obtain ⟨read, unread, hlines, ⟨hheard, -⟩ | ⟨-, asked, asking, -, hend⟩⟩ := play_cases hplay
  · obtain ⟨d, hat, hd⟩ := hheard.tracks hopening rfl hhalted
    -- the lines that were not read are input that was not asked for
    have htyped : ∃ vs, settings.typed stdin = answers read ++ vs := by
      cases hmode : settings.mode with
      | halt =>
        refine ⟨[], ?_⟩
        rw [Settings.typed, hmode, hheard.eq_nil hmode]
        rfl
      | interactive =>
        refine ⟨answers unread, ?_⟩
        rw [Settings.typed, hmode, hlines, answers_append]
    obtain ⟨vs, hvs⟩ := htyped
    rw [hvs, Machine.feed_append]
    exact ⟨_, hat.feed vs, hd.memory.symm, hd.sent.symm⟩
  · cases ending <;> cases hend

/-- Where all input is given beforehand, one run comes to the halt. -/
theorem exists_halts_of_given (hlimit : settings.limit = none) (hmode : settings.mode = .halt)
    (hopening : opening settings opened = .ok first) (hat : first.machine.HaltsAt d) :
    ∃ printed session, Halts settings opened stdin ending printed session := by
  have hfirstMode : settings.firstMode = .toHalt := firstMode_eq_toHalt_iff.2 hmode
  have htoHalt : RunMode.toHalt ≠ .toOutput := by decide
  obtain ⟨hfirst, hrunning⟩ := opening_limit hopening
  obtain ⟨fuel, ran, hran, rfl, n, hresult⟩ := hat.run (.inl hrunning) htoHalt
  obtain ⟨is, -, hhalted⟩ := hat
  rw [← hlimit, ← hfirst] at hran
  obtain ⟨printed, next, hsaid, hnext⟩ := exists_proceed_of_halted settings hran hresult hhalted
  refine ⟨printed, next, ⟨fuel, ?_⟩, hnext⟩
  rw [play, begin_of_opening hopening, hfirstMode, hsaid]
  exact converse_of_not_ask (by simp)

/-- Where input is asked for, the first run comes to the halt or to a prompt, and
the lines lead from there to the halt. -/
theorem exists_halts_of_typed (hlimit : settings.limit = none)
    (hmode : settings.mode = .interactive) (hopening : opening settings opened = .ok first)
    (hat : (first.machine.feed (answers (Text.linesOf stdin))).HaltsAt d) :
    ∃ printed session, Halts settings opened stdin ending printed session := by
  have hfirstMode : settings.firstMode = .toInput := by rw [Settings.firstMode, hmode]
  obtain ⟨hfirst, hrunning⟩ := opening_limit hopening
  obtain ⟨fuel, said, turn, hsaid, hturn⟩ :=
    exists_proceed_of_haltsAt settings (hfirst.trans hlimit) (.inl hrunning) hat
  rcases hturn with ⟨next, rfl, hhalted⟩ | ⟨next, e, rfl, hnext, hstarved, he⟩
  · refine ⟨said, next, ⟨fuel, ?_⟩, hhalted⟩
    rw [play, begin_of_opening hopening, hfirstMode, hsaid]
    exact converse_of_not_ask (by simp)
  · obtain ⟨fuel', printed, last, hlast, hhalted⟩ :=
      exists_converse_of_haltsAt settings ending hnext hstarved he said
    refine ⟨printed, last, ⟨max fuel fuel', ?_⟩, hhalted⟩
    rw [play, begin_of_opening hopening, hfirstMode, proceed_mono hsaid (Nat.le_max_left ..)]
    exact converse_mono hlast (Nat.le_max_right ..)

/-- **A dialogue comes to a halt exactly if the machine does** that has all input
from the start. -/
theorem exists_halts_iff (hlimit : settings.limit = none)
    (hopening : opening settings opened = .ok first) :
    (∃ printed session, Halts settings opened stdin ending printed session) ↔
      ∃ d, (first.machine.feed (settings.typed stdin)).HaltsAt d := by
  constructor
  · rintro ⟨printed, session, h⟩
    obtain ⟨d, hat, -⟩ := h.haltsAt hopening
    exact ⟨d, hat⟩
  · rintro ⟨d, hat⟩
    cases hmode : settings.mode with
    | halt =>
      rw [Settings.typed, hmode, Machine.feed_nil] at hat
      exact exists_halts_of_given hlimit hmode hopening hat
    | interactive =>
      rw [Settings.typed, hmode] at hat
      exact exists_halts_of_typed hlimit hmode hopening hat

/-! ## Input given and input typed -/

/-- The settings with all input given beforehand. -/
def Settings.given (settings : Settings) (input : List Int) : Settings :=
  { settings with mode := .halt, input }

/-- The settings with some input given, and the rest to be asked for. -/
def Settings.asking (settings : Settings) (input : List Int) : Settings :=
  { settings with mode := .interactive, input }

/-- Input given and input typed come to the same. -/
theorem replaceInput_append (m : Machine) (us ws : List Int) :
    m.replaceInput (us ++ ws) = (m.replaceInput us).feed ws := by
  simp [Machine.replaceInput, Machine.feed, Channel.resend, Channel.sendAll, Array.append_assoc]

/-- In either case the program stands before the same input. -/
theorem exists_openings {program : Program} (settings : Settings) (us ws : List Int)
    (h : Program.ofFile opened = .ok program) :
    ∃ first first', opening (settings.given (us ++ ws)) opened = .ok first ∧
      opening (settings.asking us) opened = .ok first' ∧
      first.machine = first'.machine.feed ws :=
  ⟨_, _, opening_eq_ok_iff.2 ⟨program, h, rfl⟩, opening_eq_ok_iff.2 ⟨program, h, rfl⟩,
    replaceInput_append _ us ws⟩

/-- A dialogue that comes to a halt has loaded its program. -/
theorem Halts.opening (h : Halts settings opened stdin ending printed session) :
    ∃ first, opening settings opened = .ok first := by
  obtain ⟨⟨fuel, hplay⟩, -⟩ := h
  rw [play] at hplay
  cases hbegin : begin fuel settings opened with
  | none => simp [hbegin] at hplay
  | some said =>
    rcases begin_cases hbegin with ⟨e, -, rfl⟩ | ⟨first, hopening, -⟩
    · simp only [hbegin, refusal] at hplay
      split at hplay
      all_goals
        rw [converse_of_not_ask (by simp)] at hplay
        cases hplay
    · exact ⟨first, hopening⟩

/-- What was printed is what the machine has output. -/
theorem Halts.values (h : Halts settings opened stdin ending printed session) :
    printed.values = session.machine.output.sent.toList := by
  obtain ⟨⟨fuel, hplay⟩, -⟩ := h
  obtain ⟨rounds, hd⟩ := exists_dialogue hplay
  obtain ⟨completed, refused?, -, hsettled⟩ := hd.accounted
  have hlog := hsettled.log
  rw [hsettled.success rfl, Option.toList_none, List.append_nil] at hlog
  exact hsettled.values.trans hlog.symm

/-- The lines that were read, each after its prompt, and the listing. -/
theorem Halts.heard (h : Halts settings opened stdin ending printed session) :
    ∃ fuel read unread, Text.linesOf stdin = read ++ unread ∧
      Heard fuel settings opened read (printed, .done 0 session) ∧
      printed.prompts = read.length ∧ printed.listings = settings.dumped session.machine.memory := by
  obtain ⟨⟨fuel, hplay⟩, -⟩ := h
  obtain ⟨read, unread, hlines, ⟨hheard, -⟩ | ⟨-, asked, asking, -, hend⟩⟩ := play_cases hplay
  · obtain ⟨hprompts, hlisted⟩ := hheard.prompted
    obtain ⟨_, ⟨⟩, hlistings⟩ := hlisted rfl
    exact ⟨fuel, read, unread, hlines, hheard, hprompts, hlistings⟩
  · cases ending <;> cases hend

/-- **The two modes agree.** Take any program file, any input in two parts, and any
lines among which the integers are the second part. Without a limit, the dialogue
with all input given beforehand comes to a halt exactly if the one does in which
the second part is typed, whatever comes behind the lines. If they do, the same
values are printed and the same listing, memory is the same, and the dialogue that
asks has prompted once for each line it has read, whether it was an integer or
not. -/
theorem modes_agree {stdin' : String} {ending' : Ending} (hlimit : settings.limit = none)
    (hlines : answers (Text.linesOf stdin) = ws) :
    ((∃ printed session, Halts (settings.given (us ++ ws)) opened stdin' ending' printed session) ↔
      ∃ printed session, Halts (settings.asking us) opened stdin ending printed session) ∧
    ∀ printed session printed' session',
      Halts (settings.given (us ++ ws)) opened stdin' ending' printed session →
      Halts (settings.asking us) opened stdin ending printed' session' →
      printed.values = printed'.values ∧ printed.listings = printed'.listings ∧
      session.machine.memory = session'.machine.memory ∧
      ∃ fuel read unread, Text.linesOf stdin = read ++ unread ∧
        Heard fuel (settings.asking us) opened read (printed', .done 0 session') ∧
        printed'.prompts = read.length := by
  subst hlines
  cases hprogram : Program.ofFile opened with
  | error e =>
    -- without a program neither dialogue comes to a halt
    have hneither : ∀ settings stdin ending printed session,
        ¬ Halts settings opened stdin ending printed session := by
      intro settings stdin ending printed session h
      obtain ⟨first, hopening⟩ := h.opening
      obtain ⟨program, hread, -⟩ := opening_eq_ok_iff.1 hopening
      cases hprogram.symm.trans hread
    simp [hneither]
  | ok program =>
    obtain ⟨first, first', hgiven, hasking, hmachine⟩ :=
      exists_openings settings us (answers (Text.linesOf stdin)) hprogram
    have hinput : first.machine.feed ((settings.given (us ++ answers (Text.linesOf stdin))).typed
        stdin') = first'.machine.feed ((settings.asking us).typed stdin) := by
      rw [hmachine]
      exact Machine.feed_nil _
    refine ⟨?_, fun printed session printed' session' h h' => ?_⟩
    · have hleft : (settings.given (us ++ answers (Text.linesOf stdin))).limit = none := hlimit
      have hright : (settings.asking us).limit = none := hlimit
      rw [exists_halts_iff hleft hgiven, exists_halts_iff hright hasking, hinput]
    · obtain ⟨d, hat, hmemory, hsent⟩ := h.haltsAt hgiven
      obtain ⟨d', hat', hmemory', hsent'⟩ := h'.haltsAt hasking
      rw [hinput] at hat
      have hactive : (first'.machine.feed ((settings.asking us).typed stdin)).Active :=
        .inl (opening_limit hasking).2
      obtain rfl := hat.unique hat' hactive
      have hsame : session.machine.memory = session'.machine.memory := hmemory.symm.trans hmemory'
      obtain ⟨fuel, read, unread, hlines, hheard, hprompts, hlistings'⟩ := h'.heard
      obtain ⟨-, -, -, -, -, -, hlistings⟩ := h.heard
      refine ⟨?_, ?_, hsame, fuel, read, unread, hlines, hheard, hprompts⟩
      · rw [h.values, h'.values, ← hsent, hsent']
      · rw [hlistings, hlistings', hsame]
        rfl

/-- A program that adds two numbers is given one, and the other one is typed behind
a word. -/
theorem a_sum_is_printed_in_either_mode :
    ∃ printed session,
      Halts (Settings.asking { file := "p.txt" } [4])
        (.ok "3,13,3,14,1,13,14,13,4,13,99,0,0,0,0".toUTF8.data.toList) "five\n5\n" .endOfInput
        printed session ∧
      printed.values = [9] := by
  have hseen : (play 9 (Settings.given { file := "p.txt" } ([4] ++ [5]))
      (.ok "3,13,3,14,1,13,14,13,4,13,99,0,0,0,0".toUTF8.data.toList) "" .endOfInput).map
        (fun said => (said.1.values, said.2.halted)) = some ([9], true) := by
    decide +kernel
  obtain ⟨printed, session, hgiven, hvalues⟩ := exists_halts hseen
  have hlimit : Settings.limit { file := "p.txt" } = none := rfl
  have hfive : answers (Text.linesOf "five\n5\n") = [5] := by decide +kernel
  obtain ⟨printed', session', hasking⟩ : ∃ printed session,
      Halts (Settings.asking { file := "p.txt" } [4])
        (.ok "3,13,3,14,1,13,14,13,4,13,99,0,0,0,0".toUTF8.data.toList) "five\n5\n" .endOfInput
        printed session := (modes_agree hlimit hfive).1.1 ⟨printed, session, hgiven⟩
  obtain ⟨heq, -⟩ := (modes_agree hlimit hfive).2 _ _ _ _ hgiven hasking
  exact ⟨printed', session', hasking, heq.symm.trans hvalues⟩

end IntMachine.Runner
