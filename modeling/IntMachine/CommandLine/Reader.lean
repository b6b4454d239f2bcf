import IntMachine.CommandLine.Grammar
/-!
# Reading a command line

Applies the arguments of a command to its settings, from left to right. All
arguments are classified before any is applied; an option takes effect when it
has its values; a missing operand is reported before arguments that nothing
took, and both only at the end.
-/

namespace IntMachine.CommandLine

/-- Why a command does not start: its help was asked for, or its arguments are
wrong. -/
inductive Refusal where
  | help
  | usage (error : UsageError)
  deriving DecidableEq, Repr

/-- What the argument before this one left open. -/
inductive Pending (σ : Type) where
  | nothing
  /-- It was the operand; a separator directly behind it belongs to it. -/
  | operand
  | one (option : Opt σ)
  | several (option : Opt σ) (values : Array String)

/-- The settings so far, whether the operand has been given, and the arguments
that nothing took. -/
structure Reading (σ : Type) where
  settings : σ
  filled : Bool := false
  extra : Array String := #[]

/-- An option with the values it takes. -/
abbrev Use (σ : Type) := Opt σ × List String

namespace Grammar

variable {σ : Type}

/-- Applies an option. -/
def apply (settings : σ) (use : Use σ) : Except Refusal σ :=
  let checked (r : Except String σ) : Except Refusal σ :=
    r.mapError fun reason => .usage (.badValue use.1.display reason)
  match use.1.action, use.2 with
  | .help, _ => .error .help
  | .switch f, _ => .ok (f settings)
  | .one f, values => checked (f settings (values.headD ""))
  | .several f, values => checked (f settings values)

/-- Applies several options in turn. -/
def applyAll (settings : σ) : List (Use σ) → Except Refusal σ
  | [] => .ok settings
  | use :: rest =>
    match apply settings use with
    | .error e => .error e
    | .ok settings => applyAll settings rest

/-- The option that the text attached to an option without values begins with:
a one-letter option may have more of them behind it. -/
def nextLetter (g : Grammar σ) (o : Opt σ) (short equals : Bool) (value : List Char) :
    Except UsageError (Option (Opt σ)) :=
  let unexpected := .error (.unexpectedValue o.display (String.ofList value))
  match value with
  | [] => unexpected
  | c :: _ => if !short ∨ equals ∨ c = '-' then unexpected else .ok (g.find? ['-', c])

/-- What to make of a text attached to an option: the options it completes, the
one that still looks for its values in the arguments behind, and a text that
nothing takes. -/
def attach (g : Grammar σ) (o : Opt σ) (short equals : Bool) (value : List Char) :
    Except UsageError (List (Use σ) × Option (Opt σ) × Option String) :=
  match o.action with
  | .one _ | .several _ => .ok ([(o, [String.ofList value])], none, none)
  | .help | .switch _ =>
    match g.nextLetter o short equals value with
    | .error e => .error e
    | .ok none => .ok ([(o, [])], none, some (String.ofList ('-' :: value)))
    | .ok (some next) =>
      let behind := fun (uses, last, text) => ((o, []) :: uses, last, text)
      match value with
      | _ :: '=' :: more => (attach g next true true more).map behind
      | _ :: c :: more => (attach g next true false (c :: more)).map behind
      | _ => .ok ([(o, [])], some next, none)
termination_by value.length

/-- What an option looks for in the arguments behind it. -/
def await (settings : σ) (o : Opt σ) : Except Refusal (σ × Pending σ) :=
  match o.action with
  | .help | .switch _ => (apply settings (o, [])).map fun s => (s, .nothing)
  | .one _ => .ok (settings, .one o)
  | .several _ => .ok (settings, .several o #[])

/-- Applies an option that took all values there were. -/
def close (r : Reading σ) : Pending σ → Except Refusal (Reading σ)
  | .nothing | .operand => .ok r
  | .one o => .error (.usage (.missingValue o.display))
  | .several o values =>
    (apply r.settings (o, values.toList)).map fun settings => { r with settings }

/-- Reads an option argument, with nothing left open before it. -/
def readOption (g : Grammar σ) (r : Reading σ) (o : Opt σ) (spelling : List Char) :
    Attached → Except Refusal (Reading σ × Pending σ)
  | .none => (await r.settings o).map fun (settings, pending) => ({ r with settings }, pending)
  | .afterEquals value => attached true value
  | .joined value => attached false value
where
  attached (equals : Bool) (value : List Char) : Except Refusal (Reading σ × Pending σ) :=
    let short := spelling[1]? ≠ some '-'
    match g.attach o short equals value with
    | .error e => .error (.usage e)
    | .ok (uses, last, text) =>
      match applyAll r.settings uses with
      | .error e => .error e
      | .ok settings =>
        let r := { r with settings, extra := r.extra ++ text.toList.toArray }
        match last with
        | none => .ok (r, .nothing)
        | some o => (await r.settings o).map fun (settings, pending) => ({ r with settings }, pending)

/-- Reads the classified arguments. -/
def readTokens (g : Grammar σ) (r : Reading σ) :
    Pending σ → List (Token σ) → Except Refusal (Reading σ)
  | pending, [] => close r pending
  | .one o, .plain text :: rest =>
    match apply r.settings (o, [text]) with
    | .error e => .error e
    | .ok settings => readTokens g { r with settings } .nothing rest
  | .several o values, .plain text :: rest => readTokens g r (.several o (values.push text)) rest
  | .nothing, .plain text :: rest | .operand, .plain text :: rest =>
    if r.filled then readTokens g { r with extra := r.extra.push text } .nothing rest
    else
      readTokens g { r with settings := g.setOperand r.settings text, filled := true } .operand rest
  | .operand, .separator :: rest => readTokens g r .nothing rest
  | pending, .separator :: rest =>
    match close r pending with
    | .error e => .error e
    | .ok r =>
      readTokens g (if r.filled then { r with extra := r.extra.push "--" } else r) .nothing rest
  | pending, .unknown text :: rest =>
    match close r pending with
    | .error e => .error e
    | .ok r => readTokens g { r with extra := r.extra.push text } .nothing rest
  | pending, .option o spelling attached :: rest =>
    match close r pending with
    | .error e => .error e
    | .ok r =>
      match g.readOption r o spelling attached with
      | .error e => .error e
      | .ok (r, pending) => readTokens g r pending rest

/-- Reads the arguments of a command. -/
def read (g : Grammar σ) (settings : σ) (arguments : List String) : Except Refusal σ :=
  match g.tokens arguments with
  | .error e => .error (.usage e)
  | .ok tokens =>
    match g.readTokens { settings } .nothing tokens with
    | .error e => .error e
    | .ok r =>
      if g.operandRequired ∧ !r.filled then .error (.usage (.missingOperand g.operand))
      else if r.extra.isEmpty then .ok r.settings
      else .error (.usage (.unrecognized r.extra.toList))

/-- The text on standard error for wrong arguments. -/
def complaint (g : Grammar σ) (e : UsageError) : String :=
  s!"{g.usage}{g.command}: error: {e.message}\n"

end Grammar

end IntMachine.CommandLine
