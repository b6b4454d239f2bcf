import IntMachine.Monitor.Command
/-!
# Lines heard one after the other

`attend` has a monitor hear lines, and keeps for each of them what was answered and what
the monitor has become; the loop of the monitor does the same (`serve_of_attend`). What
a line is answered depends on the session alone, and not on what the monitor remembers
besides, unless the line leaves open which part of memory to show (`hear_alike`). Lines
that only look at the session leave it as it is (`hear_look`), so that putting them in
and taking them out does not disturb the others (`looking_does_not_disturb`).
-/

namespace IntMachine.Monitor

/-- A line that was heard, with the monitor before and after it. -/
structure Turn where
  line : String
  before : Monitor
  answer : Answer
  after : Monitor

/-- Hears lines one after the other, also behind a line that would end the loop. -/
def attend (fuel : Nat) (opener : Opener) : List String → Monitor → Option (List Turn × Monitor)
  | [], m => some ([], m)
  | line :: lines, m =>
    match m.hear fuel opener line with
    | none => none
    | some (answer, after) =>
      (attend fuel opener lines after).map fun (turns, last) =>
        (⟨line, m, answer, after⟩ :: turns, last)

variable {fuel : Nat} {opener : Opener} {line : String} {lines : List String}
variable {m m' last : Monitor} {turns earlier later : List Turn} {t : Turn}

/-- The first of some lines is heard, and then the others are. -/
theorem attend_cons_eq_some_iff :
    attend fuel opener (line :: lines) m = some (turns, last) ↔
      ∃ answer after rest, m.hear fuel opener line = some (answer, after) ∧
        attend fuel opener lines after = some (rest, last) ∧
        turns = ⟨line, m, answer, after⟩ :: rest := by
  rw [attend]
  cases m.hear fuel opener line with
  | none => simp
  | some reply =>
    obtain ⟨answer, after⟩ := reply
    constructor
    · intro h
      obtain ⟨⟨rest, last'⟩, hrest, hturns⟩ := Option.map_eq_some_iff.1 h
      obtain ⟨rfl, rfl⟩ := Prod.mk.inj hturns
      exact ⟨answer, after, rest, rfl, hrest, rfl⟩
    · rintro ⟨_, _, rest, hreply, hrest, rfl⟩
      obtain ⟨rfl, rfl⟩ := Prod.mk.inj (Option.some.inj hreply)
      simp only [hrest, Option.map_some]

/-- **A turn and what came before it.** -/
theorem attend_split (h : attend fuel opener lines m = some (turns, last))
    (hsplit : turns = earlier ++ t :: later) :
    (∃ heard, attend fuel opener heard m = some (earlier, t.before)) ∧
      t.before.hear fuel opener t.line = some (t.answer, t.after) := by
  induction earlier generalizing lines m turns with
  | nil =>
    cases lines with
    | nil => simp_all [attend]
    | cons line lines =>
      obtain ⟨answer, after, rest, hhear, -, rfl⟩ := attend_cons_eq_some_iff.1 h
      obtain ⟨rfl, -⟩ := List.cons.inj hsplit
      exact ⟨⟨[], rfl⟩, hhear⟩
  | cons first earlier ih =>
    cases lines with
    | nil => simp_all [attend]
    | cons line lines =>
      obtain ⟨answer, after, rest, hhear, hrest, rfl⟩ := attend_cons_eq_some_iff.1 h
      obtain ⟨rfl, hlater⟩ := List.cons.inj hsplit
      obtain ⟨⟨heard, hheard⟩, ht⟩ := ih hrest hlater
      exact ⟨⟨line :: heard, attend_cons_eq_some_iff.2 ⟨_, _, _, hhear, hheard, rfl⟩⟩, ht⟩

theorem parseLine_of_ne_blank (h : parse line ≠ .blank) : m.parseLine line = parse line := by
  unfold parseLine
  split
  · exact absurd ‹_› h
  · rfl

/-- The screen when a line has been read at the prompt and answered. -/
def Turn.onScreen (screen : Screen) (t : Turn) : Screen := (screen.print prompt).add t.answer

/-- **The loop of the monitor attends to the lines**, up to one that ends it, and shows
every answer. -/
theorem serve_of_attend {ending : Runner.Ending} {rest : List String} {screen : Screen}
    (h : attend fuel opener lines m = some (turns, last))
    (hgoes : ∀ t ∈ turns, t.answer.stop = false ∧ t.answer.crash = none) :
    serve fuel opener ending (lines ++ rest) m screen =
      serve fuel opener ending rest last (turns.foldl Turn.onScreen screen) := by
  induction lines generalizing m turns screen with
  | nil =>
    obtain ⟨rfl, rfl⟩ : [] = turns ∧ m = last := by simpa [attend] using h
    rfl
  | cons line lines ih =>
    obtain ⟨answer, after, turns, hhear, hattend, rfl⟩ := attend_cons_eq_some_iff.1 h
    obtain ⟨⟨hstop, hcrash⟩, hlater⟩ := List.forall_mem_cons.1 hgoes
    dsimp only at hstop hcrash
    rw [List.cons_append, serve, hhear]
    simp only [hstop, hcrash]
    exact ih hattend hlater

/-! ## What answers depend on -/

/-- Two replies leave the same session, and answer the same unless they need not. -/
structure Alike (exempt : Bool) (r r' : Reply) : Prop where
  answer : exempt = false → r'.1 = r.1
  session : r'.2.session = r.2.session

/-- A line that leaves open which part of memory to show. -/
def Parsed.isOpenEnded : Parsed → Bool
  | .command _ (some .memory) argument => (parts argument).length < 2
  | _ => false

theorem rel_map {α β : Type} {R : β → β → Prop} {f g : α → β} {o : Option α}
    (h : ∀ a, R (f a) (g a)) : Option.Rel R (o.map f) (o.map g) := by
  cases o with
  | none => exact .none
  | some a => exact .some (h a)

section Alike

variable {exempt : Bool} {s : Session} {argument : String}
variable (hs : m'.session = m.session)
include hs

theorem alike_say (a : Answer) : Alike exempt (a, m) (a, m') := ⟨fun _ => rfl, hs⟩

omit hs in
theorem alike_become (s : Session) (entries : List Entry) :
    Alike exempt (m.become s entries) (m'.become s entries) := ⟨fun _ => rfl, rfl⟩

theorem alike_load : Alike exempt (m.load opener argument) (m'.load opener argument) := by
  unfold load
  split
  · exact alike_say hs _
  · dsimp only
    split
    · exact alike_become _ _
    · split
      · exact alike_say hs _
      · exact alike_say hs _

theorem alike_run :
    Option.Rel (Alike exempt) (m.run fuel s argument) (m'.run fuel s argument) := by
  unfold run
  split
  · refine rel_map fun out => ?_
    dsimp only
    split <;> exact ⟨fun _ => rfl, rfl⟩
  · split
    · exact .some (alike_say hs _)
    · refine rel_map fun out => ?_
      dsimp only
      split <;> exact ⟨fun _ => rfl, rfl⟩

theorem alike_step : Alike exempt (m.step s argument) (m'.step s argument) := by
  unfold step
  split
  · exact alike_say hs _
  · exact ⟨fun _ => rfl, rfl⟩

theorem alike_input : Alike exempt (m.input s argument) (m'.input s argument) := by
  unfold input
  dsimp only
  split
  · exact alike_say hs _
  · exact alike_become _ _

theorem alike_breakAt : Alike exempt (m.breakAt s argument) (m'.breakAt s argument) := by
  unfold breakAt
  split
  · exact alike_say hs _
  · split
    · exact alike_say hs _
    · exact alike_become _ _

theorem alike_dropBreakpoint :
    Alike exempt (m.dropBreakpoint s argument) (m'.dropBreakpoint s argument) := by
  unfold dropBreakpoint
  split
  · exact alike_say hs _
  · exact alike_become _ _

theorem alike_assign : Alike exempt (m.assign s argument) (m'.assign s argument) := by
  unfold assign
  split
  · split
    · exact alike_say hs _
    · exact alike_say hs _
    · split
      · exact alike_become _ _
      · exact alike_say hs _
  · exact alike_say hs _

/-- What is shown of memory depends on what was shown last where the line leaves it
open. -/
theorem alike_memory (hexempt : exempt = false → 2 ≤ (parts argument).length) :
    Alike exempt (m.memory s argument) (m'.memory s argument) := by
  unfold memory
  dsimp only
  split
  · rename_i hparts
    exact ⟨fun h => absurd (hexempt h) (by simp [hparts]), hs⟩
  · rename_i start hparts
    have hopen : exempt ≠ false := fun h => absurd (hexempt h) (by simp [hparts])
    split
    · exact ⟨fun h => absurd h hopen, hs⟩
    · exact ⟨fun h => absurd h hopen, hs⟩
  · -- both numbers are named, so nothing that is remembered is used
    split
    · exact ⟨fun _ => rfl, hs⟩
    · exact alike_say hs _

theorem alike_withProgram {f g : Session → Option Reply}
    (h : ∀ s, Option.Rel (Alike exempt) (f s) (g s)) :
    Option.Rel (Alike exempt)
      (match m.session with | none => some (m.say [.noProgram]) | some s => f s)
      (match m'.session with | none => some (m'.say [.noProgram]) | some s => g s) := by
  rw [hs]
  cases m.session with
  | none => exact .some (alike_say hs _)
  | some s => exact h s

theorem alike_obey {verb : Verb}
    (hexempt : verb = .memory → exempt = false → 2 ≤ (parts argument).length) :
    Option.Rel (Alike exempt) (m.obey fuel opener verb argument)
      (m'.obey fuel opener verb argument) := by
  cases verb with
  | load => exact .some (alike_load hs)
  | quit | exit | endOfInput | help => exact .some (alike_say hs _)
  | reset | clear => exact alike_withProgram hs fun _ => .some (alike_become _ _)
  | status | output => exact alike_withProgram hs fun _ => .some (alike_say hs _)
  | run => exact alike_withProgram hs fun _ => alike_run hs
  | step => exact alike_withProgram hs fun _ => .some (alike_step hs)
  | input => exact alike_withProgram hs fun _ => .some (alike_input hs)
  | «break» => exact alike_withProgram hs fun _ => .some (alike_breakAt hs)
  | delete => exact alike_withProgram hs fun _ => .some (alike_dropBreakpoint hs)
  | set => exact alike_withProgram hs fun _ => .some (alike_assign hs)
  | memory => exact alike_withProgram hs fun _ => .some (alike_memory hs (hexempt rfl))

theorem hear_rel (hline : parse line ≠ .blank) :
    Option.Rel (Alike (parse line).isOpenEnded) (m.hear fuel opener line)
      (m'.hear fuel opener line) := by
  unfold hear
  rw [parseLine_of_ne_blank hline, parseLine_of_ne_blank hline]
  cases hparse : parse line with
  | blank => exact absurd hparse hline
  | outside text => exact .some (alike_say hs _)
  | command text verb argument =>
    cases verb with
    | none => exact .some ⟨fun _ => rfl, hs⟩
    | some verb =>
      unfold hearLine
      refine alike_obey ?_ ?_
      · exact hs
      · rintro rfl hopen
        exact Nat.not_lt.1 (of_decide_eq_false hopen)

/-- **What a line is answered depends on the session alone**, unless it leaves open which
part of memory to show. -/
theorem hear_alike (hline : parse line ≠ .blank) {reply : Reply}
    (h : m.hear fuel opener line = some reply) :
    ∃ reply', m'.hear fuel opener line = some reply' ∧
      Alike (parse line).isOpenEnded reply reply' := by
  have halike : Option.Rel (Alike (parse line).isOpenEnded) (m.hear fuel opener line)
      (m'.hear fuel opener line) := hear_rel hs hline
  rw [h] at halike
  cases hhear : m'.hear fuel opener line with
  | none => simp [hhear] at halike
  | some reply' =>
    rw [hhear] at halike
    cases halike with
    | some halike => exact ⟨reply', rfl, halike⟩

end Alike

/-! ## Lines that look at the session -/

/-- A line that asks for something to be shown. -/
def Parsed.isLook : Parsed → Bool
  | .command _ (some .status) _ | .command _ (some .output) _ | .command _ (some .memory) _ => true
  | .command _ (some .break) argument => argument = ""
  | _ => false

theorem ne_blank_of_isLook (h : (parse line).isLook = true) : parse line ≠ .blank := by
  intro hblank
  rw [hblank] at h
  cases h

theorem session_memory (m : Monitor) (s : Session) (argument : String) :
    (m.memory s argument).2.session = m.session := by
  unfold memory
  dsimp only
  split
  · rfl
  · split <;> rfl
  · split <;> rfl

theorem obey_look {text argument : String} {verb : Verb}
    (h : (Parsed.command text (some verb) argument).isLook = true) :
    ∃ answer after, m.obey fuel opener verb argument = some (answer, after) ∧
      after.session = m.session := by
  unfold obey
  cases hsession : m.session with
  | none =>
    cases verb with
    | status | output | memory | «break» => exact ⟨_, _, rfl, hsession⟩
    | _ => cases h
  | some s =>
    cases verb with
    | status | output => exact ⟨_, _, rfl, hsession⟩
    | memory => exact ⟨_, _, rfl, (session_memory m s argument).trans hsession⟩
    | «break» =>
      obtain rfl : argument = "" := by simpa [Parsed.isLook] using h
      exact ⟨_, _, rfl, hsession⟩
    | _ => cases h

/-- **A look leaves the session as it is**, and is always answered. -/
theorem hear_look (h : (parse line).isLook = true) :
    ∃ answer after, m.hear fuel opener line = some (answer, after) ∧
      after.session = m.session := by
  unfold hear
  rw [parseLine_of_ne_blank (ne_blank_of_isLook h)]
  cases hparse : parse line with
  | blank | outside _ => simp [hparse, Parsed.isLook] at h
  | command text verb argument =>
    rw [hparse] at h
    cases verb with
    | none => cases h
    | some verb => exact obey_look h

/-! ## Lines put in and taken out -/

/-- One line of a session that is being edited. -/
inductive Edit where
  | keep (line : String)
  | insert (line : String)
  | delete (line : String)

/-- The line in the session as it was. -/
def Edit.original? : Edit → Option String
  | .keep line | .delete line => some line
  | .insert _ => none

/-- The line in the session as it is now. -/
def Edit.edited? : Edit → Option String
  | .keep line | .insert line => some line
  | .delete _ => none

/-- The line, if it is in both. -/
def Edit.kept? : Edit → Option String
  | .keep line => some line
  | _ => none

/-- Only looks are put in or taken out, and no line that stays is blank. -/
def Edit.Harmless : Edit → Prop
  | .keep line => parse line ≠ .blank
  | .insert line | .delete line => (parse line).isLook = true

instance : (e : Edit) → Decidable e.Harmless
  | .keep line => inferInstanceAs (Decidable (parse line ≠ .blank))
  | .insert line | .delete line => inferInstanceAs (Decidable ((parse line).isLook = true))

/-- The turns of the lines that stay, as they were and as they are. -/
def remaining : List Edit → List Turn → List Turn → List (Turn × Turn)
  | .keep _ :: edits, t :: turns, t' :: turns' => (t, t') :: remaining edits turns turns'
  | .insert _ :: edits, turns, _ :: turns' => remaining edits turns turns'
  | .delete _ :: edits, _ :: turns, turns' => remaining edits turns turns'
  | _, _, _ => []

/-- **Looking does not disturb.** Take a session in which no line is blank, put in and
take out any lines that only look at the machine, and keep the others. Then the edited
session is heard to its end like the one before, and it leaves the same session. Every
line that stays leaves the same session as before, and is answered as before unless it
asks for memory and leaves open which part. -/
theorem looking_does_not_disturb (edits : List Edit) (hedits : ∀ e ∈ edits, e.Harmless)
    (hsame : m'.session = m.session)
    (h : attend fuel opener (edits.filterMap Edit.original?) m = some (turns, last)) :
    ∃ turns' last', attend fuel opener (edits.filterMap Edit.edited?) m' = some (turns', last') ∧
      last'.session = last.session ∧
      (remaining edits turns turns').map (·.1.line) = edits.filterMap Edit.kept? ∧
      ∀ p ∈ remaining edits turns turns', p.2.line = p.1.line ∧
        p.2.after.session = p.1.after.session ∧
        ((parse p.1.line).isOpenEnded = false → p.2.answer = p.1.answer) := by
  induction edits generalizing m m' turns with
  | nil =>
    obtain ⟨rfl, rfl⟩ : [] = turns ∧ m = last := by simpa [attend] using h
    exact ⟨[], m', rfl, hsame, rfl, by simp [remaining]⟩
  | cons e edits ih =>
    have hrest : ∀ e ∈ edits, e.Harmless := fun e he => hedits e (List.mem_cons_of_mem _ he)
    have he : e.Harmless := hedits e List.mem_cons_self
    cases e with
    | keep line =>
      -- both sessions hear the line, with the same session before it
      obtain ⟨answer, after, rest, hhear, hattend, rfl⟩ := attend_cons_eq_some_iff.1 h
      obtain ⟨⟨answer', after'⟩, hhear', hanswer, hafter⟩ := hear_alike hsame he hhear
      obtain ⟨turns', last', hattend', hlast, hkept, hall⟩ := ih hrest hafter hattend
      refine ⟨_, last', attend_cons_eq_some_iff.2 ⟨_, _, _, hhear', hattend', rfl⟩, hlast, ?_, ?_⟩
      · exact congrArg (line :: ·) hkept
      · intro p hp
        rcases List.mem_cons.1 hp with rfl | hp
        · exact ⟨rfl, hafter, hanswer⟩
        · exact hall p hp
    | insert line =>
      -- only the edited session hears the line, which is answered and changes nothing
      obtain ⟨answer, after, hhear, hafter⟩ : ∃ answer after,
          m'.hear fuel opener line = some (answer, after) ∧ after.session = m'.session :=
        hear_look he
      obtain ⟨turns', last', hattend, hlast, hkept, hall⟩ := ih hrest (hafter.trans hsame) h
      exact ⟨_, last', attend_cons_eq_some_iff.2 ⟨_, _, _, hhear, hattend, rfl⟩, hlast, hkept, hall⟩
    | delete line =>
      -- only the session before hears it
      obtain ⟨answer, after, rest, hhear, hattend, rfl⟩ := attend_cons_eq_some_iff.1 h
      obtain ⟨answer', after', hhear', hafter⟩ : ∃ answer after,
          m.hear fuel opener line = some (answer, after) ∧ after.session = m.session :=
        hear_look he
      obtain ⟨-, rfl⟩ := Prod.mk.inj (Option.some.inj (hhear'.symm.trans hhear))
      exact ih hrest (hsame.trans hafter.symm) hattend

/-- A program is loaded and executed in two goes. Looks at no memory at all, at a negative
address and with an argument that is no integer come in, and a list of breakpoints goes
out. -/
theorem looks_between_two_runs :
    ∃ turns last turns' last',
      attend 9 (fun _ => .ok "104,7,104,8,99".toUTF8.data.toList)
        ["load p.txt", "run 1", "break", "step 2"] {} = some (turns, last) ∧
      attend 9 (fun _ => .ok "104,7,104,8,99".toUTF8.data.toList)
        ["status", "load p.txt", "memory -5 40", "run 1", "memory x", "output", "step 2"] {} =
          some (turns', last') ∧
      last'.session = last.session ∧
      ∀ p ∈ remaining [.insert "status", .keep "load p.txt", .insert "memory -5 40",
          .keep "run 1", .insert "memory x", .delete "break", .insert "output", .keep "step 2"]
          turns turns', p.2.after.session = p.1.after.session := by
  have hsome : (attend 9 (fun _ => .ok "104,7,104,8,99".toUTF8.data.toList)
      ["load p.txt", "run 1", "break", "step 2"] {}).isSome = true := by
    decide +kernel
  obtain ⟨⟨turns, last⟩, hattend⟩ := Option.isSome_iff_exists.1 hsome
  obtain ⟨turns', last', hattend', hlast, -, hall⟩ :=
    looking_does_not_disturb [.insert "status", .keep "load p.txt", .insert "memory -5 40",
      .keep "run 1", .insert "memory x", .delete "break", .insert "output", .keep "step 2"]
      (by decide +kernel) rfl hattend
  exact ⟨turns, last, turns', last', hattend, hattend', hlast, fun p hp => (hall p hp).2.1⟩

end IntMachine.Monitor
