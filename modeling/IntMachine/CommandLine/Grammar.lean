import IntMachine.Text.Digit
import IntMachine.Text.Quoted
/-!
# Command-line grammars

What the arguments of a command may be: options, and one operand. An option has
one or more spellings, starting with one dash and a letter or with two dashes,
and takes no value, one, or several. `Grammar` describes a command that keeps
what its arguments say in settings of type `σ`.
-/

namespace IntMachine.CommandLine

/-- What an option does. An option with values may reject them, with a message. -/
inductive Action (σ : Type) where
  /-- Ask for the help text. -/
  | help
  | switch (apply : σ → σ)
  | one (apply : σ → String → Except String σ)
  | several (apply : σ → List String → Except String σ)

structure Opt (σ : Type) where
  spellings : List String
  action : Action σ

/-- The option as messages name it. -/
def Opt.display {σ : Type} (o : Opt σ) : String := "/".intercalate o.spellings

structure Grammar (σ : Type) where
  command : String
  usage : String
  help : String
  options : List (Opt σ)
  /-- The operand as messages name it. -/
  operand : String
  operandRequired : Bool
  setOperand : σ → String → σ

/-- What is wrong with the arguments of a command. -/
inductive UsageError where
  | ambiguous (argument : String) (spellings : List String)
  /-- A value attached to an option that takes none. -/
  | unexpectedValue (option value : String)
  | missingValue (option : String)
  | badValue (option reason : String)
  | missingOperand (operand : String)
  | unrecognized (arguments : List String)
  deriving DecidableEq, Repr

def UsageError.message : UsageError → String
  | .ambiguous argument spellings =>
    s!"ambiguous option: {argument} could match " ++ ", ".intercalate spellings
  | .unexpectedValue option value =>
    s!"argument {option}: ignored explicit argument {Text.quoted value}"
  | .missingValue option => s!"argument {option}: expected one argument"
  | .badValue option reason => s!"argument {option}: {reason}"
  | .missingOperand operand => s!"the following arguments are required: {operand}"
  | .unrecognized arguments => "unrecognized arguments: " ++ " ".intercalate arguments

/-- A value attached to an option in the same argument: behind an equals sign,
or directly behind a one-letter option. -/
inductive Attached where
  | none
  | afterEquals (value : List Char)
  | joined (value : List Char)

/-- What an argument turns out to be. -/
inductive Token (σ : Type) where
  /-- An operand, or a value for the option before it. -/
  | plain (text : String)
  /-- The first `--`, behind which every argument is plain. -/
  | separator
  | option (option : Opt σ) (spelling : List Char) (attached : Attached)
  | unknown (text : String)

namespace Grammar

variable {σ : Type}

/-- Every spelling with its option, in the order of the grammar. -/
def spellings (g : Grammar σ) : List (List Char × Opt σ) :=
  g.options.flatMap fun o => o.spellings.map fun s => (s.toList, o)

/-- The option with a spelling. -/
def find? (g : Grammar σ) (spelling : List Char) : Option (Opt σ) :=
  (g.spellings.find? (·.1 = spelling)).map (·.2)

/-- An argument cut at its first equals sign. -/
def cutAtEquals (s : List Char) : List Char × Attached :=
  match s.dropWhile (· ≠ '=') with
  | [] => (s, .none)
  | _ :: value => (s.takeWhile (· ≠ '='), .afterEquals value)

/-- The options that an argument may abbreviate: after two dashes by the
beginning of a spelling, after one dash by a letter with its value attached. -/
def candidates (g : Grammar σ) (s : List Char) : List (Opt σ × List Char × Attached) :=
  match s with
  | '-' :: '-' :: _ =>
    let (start, attached) := cutAtEquals s
    g.spellings.filterMap fun (spelling, o) =>
      if start.isPrefixOf spelling then some (o, spelling, attached) else none
  | _ =>
    g.spellings.filterMap fun (spelling, o) =>
      if spelling = s.take 2 then some (o, spelling, .joined (s.drop 2))
      else if s.isPrefixOf spelling then some (o, spelling, .none)
      else none

/-- Whether an argument is a minus sign with a decimal number behind it, and
perhaps a line end. -/
def isNegativeNumber : List Char → Bool
  | '-' :: digits =>
    let digits := if digits.getLast? = some '\n' then digits.dropLast else digits
    match digits.dropWhile Text.isDecimal with
    | [] => !digits.isEmpty
    | '.' :: fraction => !fraction.isEmpty && fraction.all Text.isDecimal
    | _ => false
  | _ => false

/-- Classifies one argument, before any `--`. -/
def classify (g : Grammar σ) (argument : String) : Except UsageError (Token σ) :=
  let s := argument.toList
  if s.head? ≠ some '-' then .ok (.plain argument)
  else
    match g.find? s with
    | some o => .ok (.option o s .none)
    | none =>
      let (start, attached) := cutAtEquals s
      match attached, g.find? start with
      | .afterEquals value, some o => .ok (.option o start (.afterEquals value))
      | _, _ =>
        if s.length = 1 then .ok (.plain argument)
        else
          match g.candidates s with
          | [(o, spelling, attached)] => .ok (.option o spelling attached)
          | [] =>
            if isNegativeNumber s ∨ ' ' ∈ s then .ok (.plain argument)
            else .ok (.unknown argument)
          | several =>
            .error (.ambiguous argument (several.map fun c => String.ofList c.2.1))

/-- Classifies all arguments. -/
def tokens (g : Grammar σ) : List String → Except UsageError (List (Token σ))
  | [] => .ok []
  | argument :: rest =>
    if argument = "--" then .ok (.separator :: rest.map .plain)
    else
      match g.classify argument with
      | .error e => .error e
      | .ok token =>
        match tokens g rest with
        | .error e => .error e
        | .ok more => .ok (token :: more)

end Grammar

end IntMachine.CommandLine
