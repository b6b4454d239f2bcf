import IntMachine.Proofs.Attending
import IntMachine.Proofs.Guarded
import IntMachine.Proofs.History
/-!
# What the monitor has shown of the output

The monitor shows output as it collects it, and collects it behind every command that
executed something, except a run that is refused (`Shows`). So what was shown since the
machine was started is the received part of the output log at any time
(`shownSince_eq_received`), and it is the whole log behind a step and behind a run that
is not refused. Behind a refused run the output of this run is missing, until some other
command shows it (`shown_unless_refused`).
-/

namespace IntMachine.Monitor

variable {fuel : Nat} {opener : Opener} {line argument : String} {lines : List String}
variable {m last : Monitor} {s s' : Session} {a : Answer} {entries : List Entry}
variable {events : Array Event} {reply : Reply} {turns earlier later : List Turn} {t : Turn}

/-! ## Answers -/

/-- The output that an entry shows as new. -/
def Entry.shown : Entry → List Int
  | .newOutput vs => vs
  | _ => []

/-- An entry that reports a machine at its start. -/
def Entry.isRestart : Entry → Bool
  | .loaded _ _ | .wasReset => true
  | _ => false

/-- An entry that reports a run that was refused. -/
def Entry.isRefusal : Entry → Bool
  | .runFailed _ => true
  | _ => false

/-- An entry of no such kind. -/
def Entry.isSilent : Entry → Bool
  | .newOutput _ | .loaded _ _ | .wasReset | .runFailed _ => false
  | _ => true

namespace Answer

/-- The output that an answer shows as new, in order. -/
def shown (a : Answer) : List Int := a.entries.flatMap Entry.shown

/-- Whether a program was loaded or the machine reset. -/
def restarts (a : Answer) : Bool := a.entries.any Entry.isRestart

/-- Whether a run was refused. -/
def isRefused (a : Answer) : Bool := a.entries.any Entry.isRefusal

/-- The values that the instructions executed meanwhile have sent. -/
def emitted (a : Answer) : List Int := (instructionsOf a.events).filterMap Instruction.output?

end Answer

theorem Entry.of_isSilent {e : Entry} (h : e.isSilent = true) :
    e.shown = [] ∧ e.isRestart = false ∧ e.isRefusal = false := by
  cases e <;> first | exact ⟨rfl, rfl, rfl⟩ | cases h

/-- All entries are silent. -/
def Silent (entries : List Entry) : Prop := ∀ e ∈ entries, e.isSilent = true

theorem Silent.nil : Silent [] := by simp [Silent]

theorem Silent.singleton {e : Entry} (h : e.isSilent = true) : Silent [e] := by
  simpa [Silent] using h

theorem Silent.flatMap_shown (h : Silent entries) : entries.flatMap Entry.shown = [] :=
  List.flatMap_eq_nil_iff.2 fun e he => (Entry.of_isSilent (h e he)).1

theorem Silent.any_isRestart (h : Silent entries) : entries.any Entry.isRestart = false :=
  List.any_eq_false.2 fun e he => by simp [(Entry.of_isSilent (h e he)).2.1]

theorem Silent.any_isRefusal (h : Silent entries) : entries.any Entry.isRefusal = false :=
  List.any_eq_false.2 fun e he => by simp [(Entry.of_isSilent (h e he)).2.2]

/-! ## What a line shows -/

/-- The output of the machine, if there is one. -/
def channel (m : Monitor) : Channel :=
  match m.session with
  | none => .empty
  | some s => s.machine.output

theorem channel_of_session (hs : m.session = some s) : m.channel = s.machine.output := by
  rw [channel, hs]

/-- A reply that collects the output and shows it. -/
structure Concludes (before : Channel) (reply : Reply) : Prop where
  shown : reply.1.shown = (before.sendAll reply.1.emitted).pending
  restarts : reply.1.restarts = false
  refused : reply.1.isRefused = false
  channel : reply.2.channel = (before.sendAll reply.1.emitted).drain.2

/-- A reply that leaves uncollected what a run has sent before it was refused. -/
structure Refuses (before : Channel) (reply : Reply) : Prop where
  shown : reply.1.shown = []
  restarts : reply.1.restarts = false
  refused : reply.1.isRefused = true
  channel : reply.2.channel = before.sendAll reply.1.emitted

/-- **What a reply does to the output, and shows of it.** -/
inductive Shows (before : Channel) (reply : Reply) : Prop
  /-- It has nothing to do with the output. -/
  | quiet : reply.1.shown = [] → reply.1.restarts = false → reply.2.channel = before →
      Shows before reply
  /-- It starts a machine, which has output nothing. -/
  | restarted : reply.1.shown = [] → reply.1.restarts = true → reply.2.channel = .empty →
      Shows before reply
  | concluded : Concludes before reply → Shows before reply
  | refused : Refuses before reply → Shows before reply

theorem shows_of_silent (h : Silent reply.1.entries) (hchannel : reply.2.channel = m.channel) :
    Shows m.channel reply :=
  .quiet h.flatMap_shown h.any_isRestart hchannel

theorem shown_collect (s : Session) :
    (collect s).1.flatMap Entry.shown = s.machine.output.pending := by
  by_cases h : s.machine.output.pending = []
  · simp [collect, Session.collectOutput, Machine.collectOutput, Channel.drain, h]
  · simp [collect, Session.collectOutput, Machine.collectOutput, Channel.drain, h, Entry.shown]

/-- What is collected is shown and nothing besides. -/
theorem any_collect {p : Entry → Bool} (hp : ∀ vs, p (.newOutput vs) = false) :
    (collect s).1.any p = false := by
  unfold collect
  dsimp only
  split <;> simp [hp]

/-- **Commands that execute something conclude with all new output.** -/
theorem concludes_conclude (hs : m.session = some s)
    (hfollows : s.machine.Follows (instructionsOf events) s'.machine) (hentries : Silent entries) :
    Concludes m.channel (m.conclude s' entries events) := by
  have hsent : m.channel.sendAll (m.conclude s' entries events).1.emitted = s'.machine.output := by
    rw [channel_of_session hs, hfollows.output]
    rfl
  have hparts : (m.conclude s' entries events).1.entries =
      entries ++ (collect s').1 ++ [statusOf s'] := rfl
  refine ⟨?_, ?_, ?_, ?_⟩
  · rw [hsent, Answer.shown, hparts, List.flatMap_append, List.flatMap_append,
      hentries.flatMap_shown, shown_collect]
    simp [statusOf, Entry.shown]
  · rw [Answer.restarts, hparts, List.any_append, List.any_append, hentries.any_isRestart,
      any_collect fun _ => rfl]
    rfl
  · rw [Answer.isRefused, hparts, List.any_append, List.any_append, hentries.any_isRefusal,
      any_collect fun _ => rfl]
    rfl
  · rw [hsent]
    rfl

/-- Whether an argument names a count, or none. -/
def hasCount (argument : String) : Bool := argument = "" || (integer? argument).isSome

theorem eq_none_of_not_hasCount (h : ¬ hasCount argument = true) :
    argument ≠ "" ∧ integer? argument = none := by
  simpa [hasCount] using h

/-- A count that is named, unless none is. -/
theorem exists_count (h : hasCount argument = true) (hargument : argument ≠ "") :
    ∃ n, integer? argument = some n := by
  simpa [hasCount, hargument, Option.isSome_iff_exists] using h

/-- What becomes of a run, whatever its limit. -/
theorem outcome_cases {limit : StepLimit} {out : Outcome Session MachineError RunEnd}
    (hs : m.session = some s) (hout : s.run fuel limit = some out)
    (hok : ∀ r, out.result = .ok r →
      reply = m.conclude out.after [.ran r out.after.machine.pc] out.events)
    (herror : ∀ e, out.result = .error e →
      reply = ({ entries := [.runFailed e], events := out.events },
        { m with session := some out.after })) :
    Concludes m.channel reply ∨ Refuses m.channel reply := by
  obtain ⟨ran, hran, rfl⟩ := Option.map_eq_some_iff.1 hout
  have hfollows := Machine.runGuarded_follows hran
  cases hresult : ran.result with
  | ok r =>
    rw [hok r hresult]
    exact .inl (concludes_conclude hs hfollows (.singleton rfl))
  | error e =>
    -- nothing is collected, so what the run has sent stays pending
    rw [herror e hresult]
    refine .inr ⟨rfl, rfl, rfl, ?_⟩
    rw [channel_of_session hs]
    exact hfollows.output

/-- **A run concludes or is refused.** -/
theorem run_cases (hs : m.session = some s) (h : m.run fuel s argument = some reply)
    (hcount : hasCount argument = true) :
    Concludes m.channel reply ∨ Refuses m.channel reply := by
  unfold run at h
  split at h
  · obtain ⟨⟨result, after, events⟩, hout, hreply⟩ := Option.map_eq_some_iff.1 h
    exact outcome_cases hs hout (fun r hr => by cases hr; exact hreply.symm)
      (fun e he => by cases he; exact hreply.symm)
  · rename_i hargument
    obtain ⟨n, hn⟩ := exists_count hcount hargument
    simp only [hn] at h
    obtain ⟨⟨result, after, events⟩, hout, hreply⟩ := Option.map_eq_some_iff.1 h
    exact outcome_cases hs hout (fun r hr => by cases hr; exact hreply.symm)
      (fun e he => by cases he; exact hreply.symm)

theorem stepMany_follows {n : Nat} {shown : Array Entry} {after : Session} {shown' : Array Entry}
    {events' : Array Event} (hentries : Silent shown.toList)
    (h : stepMany n s shown events = (after, shown', events')) :
    Silent shown'.toList ∧ ∃ is, s.machine.Follows is after.machine ∧
      instructionsOf events' = instructionsOf events ++ is := by
  induction n generalizing s shown events with
  | zero =>
    simp only [stepMany, Prod.mk.injEq] at h
    obtain ⟨rfl, rfl, rfl⟩ := h
    exact ⟨hentries, [], .refl _, by simp⟩
  | succ n ih =>
    have hstep : s.machine.Follows (instructionsOf s.step.events) s.step.after.machine :=
      Machine.step_follows s.machine
    rw [stepMany] at h
    cases hresult : s.step.result with
    | ok i =>
      simp only [hresult] at h
      have hnext : Silent (shown.push (.executed i)).toList := by
        simpa [Silent, or_imp, forall_and, Entry.isSilent] using hentries
      obtain ⟨hsilent, is, hrest, hevents⟩ := ih hnext h
      exact ⟨hsilent, _, hstep.trans hrest, by rw [hevents]; simp⟩
    | error e =>
      simp only [hresult, Prod.mk.injEq] at h
      obtain ⟨rfl, rfl, rfl⟩ := h
      refine ⟨?_, _, hstep, by simp⟩
      simpa [Silent, or_imp, forall_and, Entry.isSilent] using hentries

/-- **Steps conclude**, however many of them were made. -/
theorem step_concludes (hs : m.session = some s) (hcount : hasCount argument = true) :
    Concludes m.channel (m.step s argument) := by
  obtain ⟨n, hn⟩ : ∃ n, (if argument = "" then some 1 else integer? argument) = some n := by
    by_cases hargument : argument = ""
    · exact ⟨1, if_pos hargument⟩
    · rw [if_neg hargument]
      exact exists_count hcount hargument
  obtain ⟨after, shown, events, hmany⟩ : ∃ after shown events,
      stepMany n.toNat s #[] #[] = (after, shown, events) := ⟨_, _, _, rfl⟩
  obtain ⟨hsilent, is, hfollows, hevents⟩ := stepMany_follows .nil hmany
  rw [instructionsOf_empty, List.nil_append] at hevents
  rw [step, hn]
  simp only [hmany]
  exact concludes_conclude hs (by rwa [hevents]) hsilent

/-! ## Every line -/

theorem shows_say (h : Silent entries) : Shows m.channel (m.say entries) := shows_of_silent h rfl

/-- A session with the same output may take the place of the one before. -/
theorem shows_become (hs : m.session = some s) (h : Silent entries)
    (houtput : s'.machine.output = s.machine.output) : Shows m.channel (m.become s' entries) :=
  shows_of_silent h (by rw [channel_of_session hs, ← houtput]; rfl)

theorem output_loadFile {name : String} {opened : Program.Opened}
    (h : s.loadFile name opened = .ok s') : s'.machine.output = .empty := by
  unfold Session.loadFile at h
  split at h
  · obtain rfl := Except.ok.inj h
    rfl
  · cases h

theorem output_writeMemory {address v : Int} (h : s.writeMemory address v = .ok s') :
    s'.machine.output = s.machine.output := by
  unfold Session.writeMemory at h
  cases hmemory : s.machine.memory.write address v with
  | error e =>
    rw [hmemory] at h
    cases h
  | ok memory =>
    rw [hmemory] at h
    obtain rfl := Except.ok.inj h
    rfl

theorem load_shows : Shows m.channel (m.load opener argument) := by
  unfold load
  split
  · exact shows_say (.singleton rfl)
  · dsimp only
    split
    · rename_i hload
      exact .restarted rfl rfl (output_loadFile hload)
    · split
      · exact shows_say (.singleton rfl)
      · exact shows_of_silent .nil rfl

theorem input_shows (hs : m.session = some s) : Shows m.channel (m.input s argument) := by
  unfold input
  dsimp only
  split
  · exact shows_say (.singleton rfl)
  · exact shows_become hs (.singleton rfl) rfl

theorem breakAt_shows (hs : m.session = some s) : Shows m.channel (m.breakAt s argument) := by
  unfold breakAt
  split
  · refine shows_say ?_
    split <;> simp [Silent, Entry.isSilent]
  · split
    · exact shows_say (.singleton rfl)
    · exact shows_become hs (.singleton rfl) rfl

theorem dropBreakpoint_shows (hs : m.session = some s) :
    Shows m.channel (m.dropBreakpoint s argument) := by
  unfold dropBreakpoint
  split
  · exact shows_say (.singleton rfl)
  · exact shows_become hs (.singleton rfl) rfl

theorem memory_shows : Shows m.channel (m.memory s argument) := by
  unfold memory
  dsimp only
  split
  · exact shows_of_silent (.singleton rfl) rfl
  · split
    · exact shows_of_silent (.singleton rfl) rfl
    · exact shows_say (.singleton rfl)
  · split
    · exact shows_of_silent (.singleton rfl) rfl
    · exact shows_say (.singleton rfl)

theorem assign_shows (hs : m.session = some s) : Shows m.channel (m.assign s argument) := by
  unfold assign
  split
  · split
    · exact shows_say (.singleton rfl)
    · exact shows_say (.singleton rfl)
    · split
      · rename_i hwritten
        exact shows_become hs (.singleton rfl) (output_writeMemory hwritten)
      · exact shows_say (.singleton rfl)
  · exact shows_say (.singleton rfl)

theorem run_shows (hs : m.session = some s) (h : m.run fuel s argument = some reply) :
    Shows m.channel reply := by
  by_cases hcount : hasCount argument = true
  · rcases run_cases hs h hcount with hconcludes | hrefuses
    · exact .concluded hconcludes
    · exact .refused hrefuses
  · obtain ⟨hargument, hnone⟩ := eq_none_of_not_hasCount hcount
    rw [run, if_neg hargument, hnone] at h
    obtain rfl := Option.some.inj h
    exact shows_say (.singleton rfl)

theorem step_shows (hs : m.session = some s) : Shows m.channel (m.step s argument) := by
  by_cases hcount : hasCount argument = true
  · exact .concluded (step_concludes hs hcount)
  · obtain ⟨hargument, hnone⟩ := eq_none_of_not_hasCount hcount
    rw [step, if_neg hargument, hnone]
    exact shows_say (.singleton rfl)

theorem shows_withProgram {f : Session → Option Reply}
    (h : (match m.session with | none => some (m.say [.noProgram]) | some s => f s) = some reply)
    (hf : ∀ s, m.session = some s → f s = some reply → Shows m.channel reply) : Shows m.channel reply := by
  cases hs : m.session with
  | none =>
    rw [hs] at h
    obtain rfl := Option.some.inj h
    exact shows_say (.singleton rfl)
  | some s =>
    rw [hs] at h
    exact hf s hs h

/-- The same for a command that always comes to an end. -/
theorem shows_withProgram_total {f : Session → Reply}
    (h : (match m.session with | none => some (m.say [.noProgram]) | some s => some (f s)) =
      some reply)
    (hf : ∀ s, m.session = some s → Shows m.channel (f s)) : Shows m.channel reply :=
  shows_withProgram h fun s hs hreply => by
    obtain rfl := Option.some.inj hreply
    exact hf s hs

theorem obey_shows {verb : Verb} (h : m.obey fuel opener verb argument = some reply) :
    Shows m.channel reply := by
  cases verb with
  | load =>
    obtain rfl := Option.some.inj h
    exact load_shows
  | quit | exit | endOfInput =>
    obtain rfl := Option.some.inj h
    exact shows_of_silent (.singleton rfl) rfl
  | help =>
    obtain rfl := Option.some.inj h
    exact shows_of_silent .nil rfl
  | run => exact shows_withProgram h fun _ hs hrun => run_shows hs hrun
  | step => exact shows_withProgram_total h fun _ hs => step_shows hs
  | reset => exact shows_withProgram_total h fun _ _ => .restarted rfl rfl rfl
  | input => exact shows_withProgram_total h fun _ hs => input_shows hs
  | «break» => exact shows_withProgram_total h fun _ hs => breakAt_shows hs
  | delete => exact shows_withProgram_total h fun _ hs => dropBreakpoint_shows hs
  | clear => exact shows_withProgram_total h fun _ hs => shows_become hs (.singleton rfl) rfl
  | status | output => exact shows_withProgram_total h fun _ _ => shows_say (.singleton rfl)
  | memory => exact shows_withProgram_total h fun _ _ => memory_shows
  | set => exact shows_withProgram_total h fun _ hs => assign_shows hs

/-- **Every line shows something of the output or leaves it alone.** -/
theorem hear_shows (h : m.hear fuel opener line = some reply) : Shows m.channel reply := by
  unfold hear at h
  cases hparse : m.parseLine line with
  | blank | outside _ =>
    rw [hparse] at h
    obtain rfl := Option.some.inj h
    exact shows_of_silent .nil rfl
  | command text verb argument =>
    rw [hparse] at h
    cases verb with
    | none =>
      obtain rfl := Option.some.inj h
      exact shows_of_silent .nil rfl
    | some verb =>
      have hshows := obey_shows h
      exact hshows

/-- A line that executes something, or tries to: a run or steps, on a loaded program and
with a count that is none or an integer. -/
def executes (m : Monitor) (line : String) : Bool :=
  match m.parseLine line with
  | .command _ (some .run) argument | .command _ (some .step) argument =>
    m.session.isSome && hasCount argument
  | _ => false

theorem obey_executes {verb : Verb} (h : m.obey fuel opener verb argument = some reply)
    (hverb : verb = .run ∨ verb = .step)
    (hready : (m.session.isSome && hasCount argument) = true) :
    Concludes m.channel reply ∨ Refuses m.channel reply := by
  obtain ⟨hsession, hcount⟩ := Bool.and_eq_true_iff.1 hready
  obtain ⟨s, hs⟩ := Option.isSome_iff_exists.1 hsession
  unfold obey at h
  rw [hs] at h
  rcases hverb with rfl | rfl
  · exact run_cases hs h hcount
  · obtain rfl := Option.some.inj h
    exact .inl (step_concludes hs hcount)

/-- **A line that executes something** concludes, unless it is a run that is refused. -/
theorem hear_executes (h : m.hear fuel opener line = some reply)
    (hexecutes : m.executes line = true) :
    Concludes m.channel reply ∨ Refuses m.channel reply := by
  unfold hear at h
  unfold executes at hexecutes
  split at hexecutes
  · rename_i hparse
    rw [hparse, hearLine] at h
    have hcases := obey_executes h (.inl rfl) hexecutes
    exact hcases
  · rename_i hparse
    rw [hparse, hearLine] at h
    have hcases := obey_executes h (.inr rfl) hexecutes
    exact hcases
  · cases hexecutes

/-! ## Sessions -/

/-- The output shown as new since the last load or reset, turn by turn. -/
def shownSince (turns : List Turn) : List Int :=
  turns.foldl (fun shown t => (if t.answer.restarts then [] else shown) ++ t.answer.shown) []

theorem shownSince_concat (turns : List Turn) (t : Turn) :
    shownSince (turns ++ [t]) =
      (if t.answer.restarts then [] else shownSince turns) ++ t.answer.shown := by
  simp [shownSince, List.foldl_append]

/-- **One line more.** -/
theorem Shows.received {before : Channel} (h : Shows before reply) :
    reply.2.channel.received =
      (if reply.1.restarts then [] else before.received) ++ reply.1.shown := by
  cases h with
  | quiet hshown hrestarts hchannel => simp [hshown, hrestarts, hchannel]
  | restarted hshown hrestarts hchannel => simp [hshown, hrestarts, hchannel]
  | concluded h =>
    rw [h.channel, h.restarts, h.shown, Channel.received_drain, ← Channel.received_append_pending,
      Channel.received_sendAll]
    rfl
  | refused h => simp [h.channel, h.restarts, h.shown]

/-- **What was shown is what was collected**, whatever lines were heard. -/
theorem foldl_shown_eq_received (h : attend fuel opener lines m = some (turns, last)) :
    turns.foldl (fun shown t => (if t.answer.restarts then [] else shown) ++ t.answer.shown)
      m.channel.received = last.channel.received := by
  induction lines generalizing m turns with
  | nil =>
    obtain ⟨rfl, rfl⟩ : [] = turns ∧ m = last := by simpa [attend] using h
    rfl
  | cons line lines ih =>
    obtain ⟨answer, after, rest, hhear, hattend, rfl⟩ := attend_cons_eq_some_iff.1 h
    have hone := (hear_shows hhear).received
    rw [List.foldl_cons, ← hone]
    exact ih hattend

theorem shownSince_eq_received (h : attend fuel opener lines {} = some (turns, last)) :
    shownSince turns = last.channel.received :=
  foldl_shown_eq_received h

/-- **Output is shown once, and at once unless a run is refused.** Take a session at the
monitor, of any lines, and a turn in it that executed something: a run, or steps, with a
program loaded and a count that is none or an integer. What was shown as new output
since the last load or reset, and what is still to be collected, make up the output log.
Unless the turn was a run that was refused, all of the log has been shown. A refused run
shows nothing, so that the log has been shown only if all of it had been before and the
run has output nothing. -/
theorem shown_unless_refused (h : attend fuel opener lines {} = some (turns, last))
    (hsplit : turns = earlier ++ t :: later) (hexecutes : t.before.executes t.line = true) :
    shownSince (earlier ++ [t]) ++ t.after.channel.pending = t.after.channel.sent.toList ∧
    (t.answer.isRefused = false →
      shownSince (earlier ++ [t]) = t.after.channel.sent.toList) ∧
    (t.answer.isRefused = true →
      t.answer.shown = [] ∧
      (shownSince (earlier ++ [t]) = t.after.channel.sent.toList ↔
        t.before.channel.pending = [] ∧ t.answer.emitted = [])) := by
  obtain ⟨⟨heard, hearlier⟩, hhear⟩ := attend_split h hsplit
  have hshown : shownSince (earlier ++ [t]) = t.after.channel.received := by
    rw [shownSince_concat, shownSince_eq_received hearlier]
    exact (hear_shows hhear).received.symm
  have hall : shownSince (earlier ++ [t]) ++ t.after.channel.pending =
      t.after.channel.sent.toList := by
    rw [hshown, Channel.received_append_pending]
  have hiff : shownSince (earlier ++ [t]) = t.after.channel.sent.toList ↔
      t.after.channel.pending = [] := by
    rw [← hall, List.self_eq_append_right]
  refine ⟨hall, fun hconcluded => ?_, fun hrefused => ?_⟩
  · rcases hear_executes hhear hexecutes with hconcludes | hrefuses
    · rw [hiff, hconcludes.channel, Channel.pending_drain]
    · exact absurd hrefuses.refused (by simp [hconcluded])
  · rcases hear_executes hhear hexecutes with hconcludes | hrefuses
    · exact absurd hconcludes.refused (by simp [hrefused])
    · refine ⟨hrefuses.shown, ?_⟩
      rw [hiff, hrefuses.channel, Channel.pending_sendAll, List.append_eq_nil_iff]

/-- The step behind a refused run is refused as well, but shows what the run has left. -/
theorem a_step_shows_what_a_refused_run_left :
    ∃ earlier t last,
      attend 9 (fun _ => .ok "104,5,98".toUTF8.data.toList) ["load p.txt", "run", "step"] {} =
        some (earlier ++ [t], last) ∧
      t.line = "step" ∧ t.before.channel.pending = [5] ∧ shownSince (earlier ++ [t]) = [5] := by
  have hseen : (attend 9 (fun _ => .ok "104,5,98".toUTF8.data.toList)
        ["load p.txt", "run", "step"] {}).bind (fun attended => attended.1.getLast?.map fun t =>
          (t.line, t.before.executes t.line, t.answer.isRefused, t.before.channel.pending,
            t.after.channel.sent.toList)) = some ("step", true, false, [5], [5]) := by
    decide +kernel
  obtain ⟨⟨turns, last⟩, hattend, hlast⟩ := Option.bind_eq_some_iff.1 hseen
  obtain ⟨t, ht, hvalues⟩ := Option.map_eq_some_iff.1 hlast
  obtain ⟨earlier, rfl⟩ := List.getLast?_eq_some_iff.1 ht
  simp only [Prod.mk.injEq] at hvalues
  obtain ⟨hline, hexecutes, hrefused, hpending, hsent⟩ := hvalues
  obtain ⟨-, hshown, -⟩ := shown_unless_refused hattend rfl hexecutes
  exact ⟨earlier, t, last, hattend, hline, hpending, (hshown hrefused).trans hsent⟩

/-- **A refused run shows nothing**, although it has output a value. -/
theorem a_refused_run_shows_no_output :
    ∃ turns last t,
      attend 9 (fun _ => .ok "104,5,98".toUTF8.data.toList) ["load p.txt", "run"] {} =
        some (turns, last) ∧
      turns.getLast? = some t ∧ t.before.executes t.line = true ∧
      t.after.channel.sent.toList = [5] ∧ shownSince turns = [] := by
  have hseen : (attend 9 (fun _ => .ok "104,5,98".toUTF8.data.toList)
        ["load p.txt", "run"] {}).map (fun attended => (attended.1.getLast?.map fun t =>
          (t.before.executes t.line, t.after.channel.sent.toList), shownSince attended.1)) =
        some (some (true, [5]), []) := by
    decide +kernel
  obtain ⟨⟨turns, last⟩, hattend, hturns⟩ := Option.map_eq_some_iff.1 hseen
  obtain ⟨hlast, hshown⟩ := Prod.mk.inj hturns
  obtain ⟨t, ht, hvalues⟩ := Option.map_eq_some_iff.1 hlast
  obtain ⟨hexecutes, hsent⟩ := Prod.mk.inj hvalues
  exact ⟨turns, last, t, hattend, ht, hexecutes, hsent, hshown⟩

end IntMachine.Monitor
