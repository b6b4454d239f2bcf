import IntMachine.Text.Quoted
import IntMachine.Text.Split
/-!
# Files

A finite tree of files below a working directory, and what opening a name in
it gives: the bytes of a file, or the reason why there are none. A name is a
path with `/` between its components. Of what lies above the working directory
nothing is known but that it is made of directories.
-/

namespace IntMachine

/-- Why a name could not be opened for reading. -/
inductive OpenError where
  | notFound (name : String)
  | notDirectory (name : String)
  | isDirectory (name : String)
  | nameTooLong (name : String)
  /-- The name holds a NUL character, which no path may. -/
  | nulInName
  /-- Any other refusal, as the system words it. -/
  | refused (name reason : String)
  deriving DecidableEq, Repr

def OpenError.message : OpenError → String
  | .notFound name => s!"[Errno 2] No such file or directory: {Text.quoted name}"
  | .notDirectory name => s!"[Errno 20] Not a directory: {Text.quoted name}"
  | .isDirectory name => s!"[Errno 21] Is a directory: {Text.quoted name}"
  | .nameTooLong name => s!"[Errno 36] File name too long: {Text.quoted name}"
  | .nulInName => "embedded null byte"
  | .refused name reason => s!"{reason}: {Text.quoted name}"

/-- The components of a path below some directory, outermost first. -/
abbrev Path := List String

/-- The files below the working directory, each with its bytes. -/
structure Files where
  entries : List (Path × List UInt8)

namespace Files

/-- The tree without files. -/
def empty : Files := ⟨[]⟩

/-- The components of a name. -/
def components (name : String) : List String :=
  (Text.splitOn ['/'] name.toList).map String.ofList

/-- The components that lead anywhere: neither empty nor the dot. -/
def steps (name : String) : Path := (components name).filter fun c => c ≠ "" ∧ c ≠ "."

/-- The tree with the given files, named by relative paths. -/
def ofList (files : List (String × List UInt8)) : Files :=
  ⟨files.map fun f => (steps f.1, f.2)⟩

/-- What a path leads to. -/
inductive Place where
  | directory (path : Path)
  /-- A directory above the working directory. -/
  | outside
  | file (bytes : List UInt8)
  | nothing
  /-- A component behind a file. -/
  | behindFile
  /-- A component longer than any file's name. -/
  | tooLong

/-- The largest number of bytes in a component. -/
def maxComponent : Nat := 255

/-- The largest number of bytes in a name. -/
def maxName : Nat := 4095

/-- What a path below the working directory leads to. -/
def find (fs : Files) (path : Path) : Place :=
  match fs.entries.find? (·.1 = path) with
  | some (_, bytes) => .file bytes
  | none =>
    if fs.entries.any fun e => path.isPrefixOf e.1 then .directory path else .nothing

/-- One component further. -/
def enter (fs : Files) (place : Place) (component : String) : Place :=
  match place with
  | .nothing => .nothing
  | .tooLong => .tooLong
  | .behindFile | .file _ => .behindFile
  | .outside =>
    if maxComponent < component.utf8ByteSize then .tooLong
    else if component = "" ∨ component = "." ∨ component = ".." then .outside
    else .nothing
  | .directory path =>
    if maxComponent < component.utf8ByteSize then .tooLong
    else if component = "" ∨ component = "." then .directory path
    else if component = ".." then
      if path = [] then .outside else .directory path.dropLast
    else fs.find (path ++ [component])

/-- What a name leads to: a path from the working directory, or from the
outermost one if it starts with `/`. -/
def resolve (fs : Files) (name : String) : Place :=
  if name = "" then .nothing
  else if maxName < name.utf8ByteSize then .tooLong
  else (components name).foldl fs.enter (if name.startsWith "/" then .outside else .directory [])

/-- Opens a name for reading. -/
def read (fs : Files) (name : String) : Except OpenError (List UInt8) :=
  if name.contains '\x00' then .error .nulInName
  else match fs.resolve name with
    | .file bytes => .ok bytes
    | .nothing => .error (.notFound name)
    | .tooLong => .error (.nameTooLong name)
    | .behindFile => .error (.notDirectory name)
    | .directory _ | .outside => .error (.isDirectory name)

end Files

/-- The shortest name for the same path: no empty component but a leading one,
and no dot component. A path of nothing but these is the dot; exactly two
leading slashes are kept. -/
def Path.normalName (name : String) : String :=
  let root :=
    if !name.startsWith "/" then ""
    else if name.startsWith "//" && !name.startsWith "///" then "//" else "/"
  let text := root ++ "/".intercalate (Files.steps name)
  if text.isEmpty then "." else text

end IntMachine
