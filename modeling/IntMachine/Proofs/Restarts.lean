import IntMachine.Session.Breakpoints
import Mathlib.Data.List.Basic
/-!
# Loads and resets

All that can be done with a session, in any order. A load that fails leaves the
session as it was, so leaving it out leaves everything else as it is
(`handle_filter_fails`). A load that succeeds and a reset leave nothing of what was
before but the limit, the tracing and the breakpoints: the session is the one that
would be built anew (`Operation.restarts`). Both are put together for any history
of a session in `loads_restart_or_leave_no_trace`.
-/

namespace IntMachine.Session

/-- What can be done with a session. -/
inductive Operation where
  | run (limit : StepLimit)
  | step
  | feed (values : List Int)
  | replaceInput (values : List Int)
  | collectOutput
  | addBreakpoint (address : Int)
  | dropBreakpoint (address : Int)
  | dropBreakpoints
  | instructionAt (address : Option Int)
  | readMemory (address : Int)
  | writeMemory (address value : Int)
  | window (start : Int) (count : Option Int)
  | reset
  /-- Loads the named file, with what opening it gives at the time. -/
  | loadFile (name : String) (opened : Program.Opened)
  | loadText (text : String)
  deriving DecidableEq, Repr

/-- What an operation that was not refused gives back. -/
inductive Answer where
  | nothing
  | ran (r : RunEnd)
  | executed (i : Instruction)
  | wellFormed (i : Option Instruction)
  | values (vs : List Int)
  | value (v : Int)
  | cells (cells : List (Nat × Int))
  deriving DecidableEq, Repr

/-- Why an operation was refused. -/
inductive OperationError where
  | machine (error : MachineError)
  | address (error : InvalidAddress)
  | load (error : LoadError)
  deriving DecidableEq, Repr

/-- The session after a change, or as it was if the change is refused. -/
def settle {Error : Type} (s : Session) (refused : Error → OperationError) :
    Except Error Session → Outcome Session OperationError Answer
  | .ok after => { result := .ok .nothing, after }
  | .error e => { result := .error (refused e), after := s }

namespace Operation

/-- Does one thing with a session; each run in it takes its own share of the
fuel. -/
def perform (fuel : Nat) :
    Operation → Session → Option (Outcome Session OperationError Answer)
  | .run limit, s =>
    (s.run fuel limit).map fun { result, after, events } =>
      { result := (result.map .ran).mapError .machine, after, events }
  | .step, s =>
    let { result, after, events } := s.step
    some { result := (result.map .executed).mapError .machine, after, events }
  | .feed vs, s => some { result := .ok .nothing, after := s.feed vs }
  | .replaceInput vs, s => some { result := .ok .nothing, after := s.replaceInput vs }
  | .collectOutput, s =>
    let (vs, after) := s.collectOutput
    some { result := .ok (.values vs), after }
  | .addBreakpoint a, s => some { result := .ok .nothing, after := s.addBreakpoint a }
  | .dropBreakpoint a, s => some { result := .ok .nothing, after := s.dropBreakpoint a }
  | .dropBreakpoints, s => some { result := .ok .nothing, after := s.dropBreakpoints }
  | .instructionAt a, s => some { result := .ok (.wellFormed (s.instructionAt? a)), after := s }
  | .readMemory a, s =>
    some { result := ((s.readMemory a).map .value).mapError .address, after := s }
  | .writeMemory a v, s => some (s.settle .address (s.writeMemory a v))
  | .window start count, s => some { result := .ok (.cells (s.window start count)), after := s }
  | .reset, s => some { result := .ok .nothing, after := s.reset }
  | .loadFile name opened, s => some (s.settle .load (s.loadFile name opened))
  | .loadText text, s => some (s.settle .load (s.loadText text))

/-- The program a load brings, or why it brings none; no other operation loads. -/
def load? : Operation → Option (Except LoadError Program)
  | .loadFile name opened => some ((Program.ofFile opened).mapError (.file name))
  | .loadText text => some ((Program.parse text).mapError .text)
  | _ => none

/-- Whether an operation is a load that brings no program. -/
def fails (op : Operation) : Bool :=
  match op.load? with
  | some (.error _) => true
  | _ => false

/-- The program that a session goes on with after an operation that starts it over:
the one loaded, or the one it had. -/
inductive StartsOver : Operation → (before after : Program) → Prop
  | reset (p : Program) : StartsOver .reset p p
  | load {op : Operation} {q : Program} (p : Program) : op.load? = some (.ok q) → StartsOver op p q

end Operation

/-- An operation that came to an end, with the session it was done with. -/
structure Handling where
  operation : Operation
  before : Session
  outcome : Outcome Session OperationError Answer

/-- Does one thing after the other, whether or not it is refused. -/
def handle (fuel : Nat) : List Operation → Session → Option (List Handling × Session)
  | [], s => some ([], s)
  | op :: ops, s =>
    match op.perform fuel s with
    | none => none
    | some out =>
      (handle fuel ops out.after).map fun (log, last) => (⟨op, s, out⟩ :: log, last)

/-- A session built anew: started, and then given its breakpoints. -/
def rebuilt (program : Program) (limit : StepLimit) (tracing : Bool) (breakpoints : List Int) :
    Session :=
  breakpoints.foldl addBreakpoint (start program limit tracing)

variable {fuel : Nat} {s last : Session} {op : Operation} {ops : List Operation} {e : LoadError}
variable {out : Outcome Session OperationError Answer} {log : List Handling} {p q : Program}

/-! ## Loads -/

theorem loadFile_eq (s : Session) (name : String) (opened : Program.Opened) :
    s.loadFile name opened = ((Program.ofFile opened).mapError (.file name)).map s.withProgram := by
  rw [loadFile]
  cases Program.ofFile opened <;> rfl

theorem loadText_eq (s : Session) (text : String) :
    s.loadText text = ((Program.parse text).mapError .text).map s.withProgram := by
  rw [loadText]
  cases Program.parse text <;> rfl

/-- **What a load does** depends on what it brings. -/
theorem Operation.perform_load {loaded : Except LoadError Program} (h : op.load? = some loaded)
    (fuel : Nat) (s : Session) :
    op.perform fuel s = some (s.settle .load (loaded.map s.withProgram)) := by
  cases op with
  | loadFile name opened =>
    obtain rfl := Option.some.inj h
    rw [perform, loadFile_eq]
  | loadText text =>
    obtain rfl := Option.some.inj h
    rw [perform, loadText_eq]
  | _ => cases h

/-- **A load that fails leaves the session as it was.** -/
theorem Operation.perform_of_error (h : op.load? = some (.error e)) (fuel : Nat) (s : Session) :
    op.perform fuel s = some { result := .error (.load e), after := s } :=
  perform_load h fuel s

theorem Operation.fails_iff : op.fails ↔ ∃ e, op.load? = some (.error e) := by
  rw [fails]
  split
  · next e h => simp [h]
  · next h => simpa using fun e he => h e he

theorem mapError_ne_load {Error Result : Type} {f : Error → OperationError}
    (hf : ∀ e', f e' ≠ .load e) (r : Except Error Result) : r.mapError f ≠ .error (.load e) := by
  cases r with
  | ok _ => nofun
  | error e' => exact fun h => hf e' (Except.error.inj h)

/-- Whatever else is refused, it is not for a load. -/
theorem Operation.result_of_not_load (h : op.load? = none) (hout : op.perform fuel s = some out) :
    out.result ≠ .error (.load e) := by
  cases op with
  | loadFile _ _ | loadText _ => cases h
  | run limit =>
    obtain ⟨ran, -, rfl⟩ := Option.map_eq_some_iff.1 hout
    exact mapError_ne_load (by simp) _
  | step | readMemory _ =>
    obtain rfl := Option.some.inj hout
    exact mapError_ne_load (by simp) _
  | writeMemory a v =>
    obtain rfl := Option.some.inj hout
    cases s.writeMemory a v <;> simp [settle]
  | _ =>
    obtain rfl := Option.some.inj hout
    simp

/-- The loads that fail are those that are refused as loads. -/
theorem Operation.fails_iff_result (hout : op.perform fuel s = some out) :
    op.fails ↔ ∃ e, out.result = .error (.load e) := by
  rw [fails_iff]
  constructor
  · rintro ⟨e, he⟩
    rw [perform_of_error he] at hout
    obtain rfl := Option.some.inj hout
    exact ⟨e, rfl⟩
  · rintro ⟨e, he⟩
    cases hload : op.load? with
    | none => exact absurd he (result_of_not_load hload hout)
    | some loaded =>
      rw [perform_load hload] at hout
      obtain rfl := Option.some.inj hout
      cases loaded with
      | error e' => exact ⟨e', rfl⟩
      | ok q => cases he

/-- **Failed loads can be left out.** What is left is done to the same sessions, with the
same results, whether or not it comes to an end. -/
theorem handle_filter_fails (fuel : Nat) (ops : List Operation) (s : Session) :
    handle fuel (ops.filter (!·.fails)) s =
      (handle fuel ops s).map fun (log, last) => (log.filter (!·.operation.fails), last) := by
  induction ops generalizing s with
  | nil => rfl
  | cons op ops ih =>
    rw [handle]
    by_cases hop : op.fails
    · -- nothing happens at a load that fails
      obtain ⟨e, he⟩ := Operation.fails_iff.1 hop
      rw [List.filter_cons_of_neg (by simp [hop]), ih, Operation.perform_of_error he]
      simp [Function.comp_def, hop]
    · rw [List.filter_cons_of_pos (by simp [hop]), handle]
      cases op.perform fuel s with
      | none => rfl
      | some out => simp [ih, Function.comp_def, hop]

/-! ## Breakpoints put back -/

theorem insertAddress_of_above {a : Int} {l : List Int} (h : ∀ b ∈ l, b < a) :
    insertAddress a l = l ++ [a] := by
  induction l with
  | nil => rfl
  | cons b l ih =>
    obtain ⟨hb, hl⟩ := List.forall_mem_cons.1 h
    rw [insertAddress, if_neg (by omega), if_neg (by omega), ih hl, List.cons_append]

/-- Breakpoints that are added in ascending order are added at the end. -/
theorem foldl_addBreakpoint {bs : List Int} (h : (s.breakpoints ++ bs).Pairwise (· < ·)) :
    bs.foldl addBreakpoint s = { s with breakpoints := s.breakpoints ++ bs } := by
  induction bs generalizing s with
  | nil => simp
  | cons a bs ih =>
    have habove : ∀ b ∈ s.breakpoints, b < a := fun b hb =>
      (List.pairwise_append.1 h).2.2 b hb a List.mem_cons_self
    have hadd : s.addBreakpoint a = { s with breakpoints := s.breakpoints ++ [a] } := by
      rw [addBreakpoint, insertAddress_of_above habove]
    rw [List.foldl_cons, hadd, ih (by simpa using h)]
    simp

/-- What is built anew: a session about to start, with the breakpoints. -/
theorem rebuilt_eq {limit : StepLimit} {tracing : Bool} {bs : List Int}
    (h : bs.Pairwise (· < ·)) :
    rebuilt p limit tracing bs = { start p limit tracing with breakpoints := bs } :=
  foldl_addBreakpoint (s := start p limit tracing) h

/-! ## What no operation changes -/

/-- A session with the limit and the tracing it was started with, and with breakpoints as
they are kept. -/
structure Kept (limit : StepLimit) (tracing : Bool) (s : Session) : Prop where
  limit_eq : s.limit = limit
  tracing_eq : s.tracing = tracing
  ascending : s.breakpoints.Pairwise (· < ·)

variable {limit : StepLimit} {tracing : Bool}

theorem kept_start (p : Program) (limit : StepLimit) (tracing : Bool) :
    (start p limit tracing).Kept limit tracing :=
  ⟨rfl, rfl, .nil⟩

theorem Kept.perform (hs : s.Kept limit tracing) (hout : op.perform fuel s = some out) :
    out.after.Kept limit tracing := by
  obtain ⟨rfl, rfl, hascending⟩ := hs
  cases hload : op.load? with
  | some loaded =>
    rw [Operation.perform_load hload] at hout
    obtain rfl := Option.some.inj hout
    cases loaded <;> exact ⟨rfl, rfl, hascending⟩
  | none =>
    cases op with
    | loadFile _ _ | loadText _ => cases hload
    | run limit =>
      obtain ⟨ran, hran, rfl⟩ := Option.map_eq_some_iff.1 hout
      obtain ⟨guarded, -, rfl⟩ := Option.map_eq_some_iff.1 hran
      exact ⟨rfl, rfl, hascending⟩
    | writeMemory a v =>
      obtain rfl := Option.some.inj hout
      rw [writeMemory]
      cases s.machine.memory.write a v <;> exact ⟨rfl, rfl, hascending⟩
    | addBreakpoint a =>
      obtain rfl := Option.some.inj hout
      exact ⟨rfl, rfl, pairwise_insertAddress hascending⟩
    | dropBreakpoint a =>
      obtain rfl := Option.some.inj hout
      exact ⟨rfl, rfl, hascending.filter _⟩
    | dropBreakpoints =>
      obtain rfl := Option.some.inj hout
      exact ⟨rfl, rfl, .nil⟩
    | _ =>
      obtain rfl := Option.some.inj hout
      exact ⟨rfl, rfl, hascending⟩

/-- **What each operation keeps holds all along.** -/
theorem Kept.handle (hs : s.Kept limit tracing) (h : handle fuel ops s = some (log, last)) :
    log.map (·.operation) = ops ∧
      ∀ x ∈ log,
        x.before.Kept limit tracing ∧ x.operation.perform fuel x.before = some x.outcome := by
  induction ops generalizing s log with
  | nil =>
    obtain ⟨rfl, rfl⟩ : [] = log ∧ s = last := by simpa [Session.handle] using h
    exact ⟨rfl, by simp⟩
  | cons op ops ih =>
    rw [Session.handle] at h
    cases hout : op.perform fuel s with
    | none => simp [hout] at h
    | some out =>
      simp only [hout] at h
      obtain ⟨⟨rest, last'⟩, hrest, hlog⟩ := Option.map_eq_some_iff.1 h
      obtain ⟨rfl, rfl⟩ := Prod.mk.inj hlog
      obtain ⟨hoperations, hall⟩ := ih (hs.perform hout) hrest
      refine ⟨by rw [List.map_cons, hoperations], fun x hx => ?_⟩
      rcases List.mem_cons.1 hx with rfl | hx
      · exact ⟨hs, hout⟩
      · exact hall x hx

/-! ## Starting over -/

/-- **An operation that starts a session over leaves a session built anew.** -/
theorem Kept.starts_over (hs : s.Kept limit tracing) (h : op.StartsOver s.program q) :
    op.perform fuel s =
      some { result := .ok .nothing, after := rebuilt q limit tracing s.breakpoints } := by
  obtain ⟨rfl, rfl, hascending⟩ := hs
  rw [rebuilt_eq hascending]
  generalize hp : s.program = p at h
  cases h with
  | reset =>
    subst hp
    rfl
  | load _ hload => exact Operation.perform_load hload fuel s

/-- What starts a session over: a reset, or a load that is not refused. -/
theorem exists_startsOver {answer : Answer}
    (hop : op = .reset ∨ op.load?.isSome) (hout : op.perform fuel s = some out)
    (hresult : out.result = .ok answer) : ∃ q, op.StartsOver s.program q := by
  rcases hop with rfl | hload
  · exact ⟨_, .reset s.program⟩
  · obtain ⟨loaded, hloaded⟩ := Option.isSome_iff_exists.1 hload
    cases loaded with
    | ok q => exact ⟨q, .load s.program hloaded⟩
    | error e =>
      rw [Operation.perform_of_error hloaded] at hout
      obtain rfl := Option.some.inj hout
      cases hresult

theorem program_rebuilt (p : Program) (limit : StepLimit) (tracing : Bool) {bs : List Int}
    (h : bs.Pairwise (· < ·)) :
    (rebuilt p limit tracing bs).program = p ∧ (rebuilt p limit tracing bs).breakpoints = bs := by
  rw [rebuilt_eq h]
  exact ⟨rfl, rfl⟩

/-- **Failed loads are invisible, and successful ones start clean.** Whatever is done with a
session, in any order and also after refusals: without the loads that fail, all else has
the same results and leaves the same sessions, and these loads are those that are refused,
whatever the cause. A load that is not refused and a reset leave a session that from then
on cannot be told from one built anew, with the program loaded or the one there was, and
with the same limit, tracing and breakpoints. -/
theorem loads_restart_or_leave_no_trace (fuel : Nat) (program : Program) (limit : StepLimit)
    (tracing : Bool) (ops : List Operation) :
    handle fuel (ops.filter (!·.fails)) (start program limit tracing) =
      (handle fuel ops (start program limit tracing)).map
        (fun (log, last) => (log.filter (!·.operation.fails), last)) ∧
    ∀ log last, handle fuel ops (start program limit tracing) = some (log, last) →
      log.map (·.operation) = ops ∧
      ∀ x ∈ log,
        (x.operation.fails ↔ ∃ e, x.outcome.result = .error (.load e)) ∧
        ∀ answer, x.operation = .reset ∨ x.operation.load?.isSome →
          x.outcome.result = .ok answer →
          x.operation.StartsOver x.before.program x.outcome.after.program ∧
          x.outcome.after.breakpoints = x.before.breakpoints ∧
          ∀ more, handle fuel more x.outcome.after =
            handle fuel more
              (rebuilt x.outcome.after.program limit tracing x.outcome.after.breakpoints) := by
  refine ⟨handle_filter_fails fuel ops _, fun log last h => ?_⟩
  obtain ⟨hoperations, hall⟩ := (kept_start program limit tracing).handle h
  refine ⟨hoperations, fun x hx => ?_⟩
  obtain ⟨hkept, hdone⟩ := hall x hx
  refine ⟨Operation.fails_iff_result hdone, fun answer hop hresult => ?_⟩
  obtain ⟨q, hq⟩ := exists_startsOver hop hdone hresult
  obtain ⟨hprogram, hbreakpoints⟩ := program_rebuilt q limit tracing hkept.ascending
  have hafter : x.outcome.after = rebuilt q limit tracing x.before.breakpoints := by
    rw [hkept.starts_over hq] at hdone
    rw [← Option.some.inj hdone]
  rw [hafter, hprogram, hbreakpoints]
  exact ⟨hq, rfl, fun more => rfl⟩

/-- Four loads fail, for a bad token, a missing file, a directory and bytes that are no
text; the fifth succeeds behind a run and a write to memory. -/
def fourFailures : List Operation :=
  [.addBreakpoint 4, .loadText "1,x", .run none, .loadFile "p" (.error (.notFound "p")),
    .loadFile "d" (.error (.isDirectory "d")), .loadFile "b" (.ok [0x31, 0xFF]),
    .writeMemory 0 7, .loadText "104,7,99", .run none]

/-- The failures leave no trace, and the load that succeeds keeps nothing of the run and of
the write. -/
theorem a_load_behind_four_that_fail :
    ∃ log last,
      handle 9 fourFailures (start [99] (some 5) true) = some (log, last) ∧
      handle 9 [.addBreakpoint 4, .run none, .writeMemory 0 7, .loadText "104,7,99", .run none]
        (start [99] (some 5) true) = some (log.filter (!·.operation.fails), last) ∧
      ∃ x ∈ log, x.operation = .loadText "104,7,99" ∧ x.outcome.result = .ok .nothing ∧
        ∀ more, handle 9 more x.outcome.after =
          handle 9 more (rebuilt [104, 7, 99] (some 5) true [4]) := by
  obtain ⟨hfiltered, hall⟩ := loads_restart_or_leave_no_trace 9 [99] (some 5) true fourFailures
  have hkept : fourFailures.filter (!·.fails) =
      [.addBreakpoint 4, .run none, .writeMemory 0 7, .loadText "104,7,99", .run none] := by
    decide +kernel
  have hseen : (handle 9 fourFailures (start [99] (some 5) true)).map (fun done =>
        (done.1[7]?.map fun x => (x.operation, x.outcome.result),
          done.1[7]?.map fun x => (x.outcome.after.program, x.outcome.after.breakpoints))) =
      some (some (.loadText "104,7,99", .ok .nothing), some ([104, 7, 99], [4])) := by
    decide +kernel
  obtain ⟨⟨log, last⟩, hlog, hloaded⟩ := Option.map_eq_some_iff.1 hseen
  obtain ⟨hanswered, hstate⟩ := Prod.mk.inj hloaded
  obtain ⟨x, hx, hvalues⟩ := Option.map_eq_some_iff.1 hanswered
  obtain ⟨hop, hresult⟩ := Prod.mk.inj hvalues
  rw [hx, Option.map_some, Option.some.injEq] at hstate
  obtain ⟨hprogram, hbreakpoints⟩ := Prod.mk.inj hstate
  have hmem := List.mem_of_getElem? hx
  obtain ⟨-, hrestart⟩ := (hall log last hlog).2 x hmem
  obtain ⟨-, -, hfresh⟩ := hrestart .nothing (.inr (by rw [hop]; rfl)) hresult
  rw [hprogram, hbreakpoints] at hfresh
  rw [hkept, hlog, Option.map_some] at hfiltered
  exact ⟨log, last, hlog, hfiltered, x, hmem, hop, hresult, hfresh⟩

end IntMachine.Session
