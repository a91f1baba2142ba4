import OffsideBench.CommandLine.Setting

/-!
# Arguments

Reading the arguments of a command line from left to right. A setting whose value is not attached to
it stays pending until the next setting or the end; only then are its values looked at, so an
argument that is unknown is reported before a bad value in front of it.
-/

namespace OffsideBench.CommandLine

/-- What an argument looks like. -/
inductive Argument where
  /-- Two dashes alone. -/
  | escape
  /-- Two dashes and a name, perhaps with a value behind an equals sign. -/
  | long (name : String) (value : Option String)
  /-- A dash and a letter, perhaps with a value behind it. -/
  | short (letter : Char) (value : Option String)
  /-- Anything else. -/
  | plain (text : String)
deriving DecidableEq, Repr, Inhabited

namespace Argument

/-- Splits a name from the value behind the first equals sign. -/
def splitValue (cs : List Char) : String × Option String :=
  match cs.dropWhile (· ≠ '=') with
  | [] => (String.ofList cs, none)
  | _ :: value => (String.ofList (cs.takeWhile (· ≠ '=')), some (String.ofList value))

/-- What an argument looks like. -/
def ofString (s : String) : Argument :=
  match s.toList with
  | ['-', '-'] => .escape
  | '-' :: '-' :: cs =>
    let (name, value) := splitValue cs
    .long name value
  | ['-', c] => .short c none
  | '-' :: c :: '=' :: cs => .short c (some (String.ofList cs))
  | '-' :: c :: cs => .short c (some (String.ofList cs))
  | _ => .plain s

end Argument

/-- A word that is read as a command. -/
inductive CommandName where
  | run
  | catalog
  | generate
  | help
deriving DecidableEq, Repr, Inhabited

/-- The command with the given name. -/
def CommandName.ofString? : String → Option CommandName
  | "run" => some run
  | "catalog" => some catalog
  | "generate-fixture" => some generate
  | "help" => some help
  | _ => none

/-- The part of a command line in which arguments are read. -/
inductive Scope where
  /-- In front of the command. -/
  | top
  /-- Behind a command. -/
  | behind (c : CommandName)
deriving DecidableEq, Repr, Inhabited

namespace Scope

/-- The settings of the program as a whole. -/
def shared : List Setting := [.profile, .seed, .speed, .out]

/-- The settings that can be made in a scope. -/
def settings : Scope → List Setting
  | top | behind .help => shared
  | behind .run =>
    [.fixtures, .suffix, .variant, .warmupReps, .warmupBase, .runsBase] ++ shared
  | behind .catalog => [.fixtures, .suffix] ++ shared
  | behind .generate => [.output, .name, .multiplier, .statements, .maxDepth] ++ shared

/-- The command that a word names in a scope. -/
def command? (scope : Scope) (text : String) : Option CommandName :=
  match scope with
  | top => CommandName.ofString? text
  | behind _ => none

/-- The fault of a word that belongs to nothing. -/
def stray (scope : Scope) (text : String) : UsageError :=
  match scope with
  | top => .unknownCommand text
  | behind _ => .unknownArgument text

/-- The fault of a word behind two dashes. Not even a command may stand there. -/
def strayBehindEscape (scope : Scope) (text : String) : UsageError :=
  match scope.command? text with
  | some _ => .unknownArgument text
  | none => scope.stray text

end Scope

/-- The settings that were made so far, and the one whose values are being collected. -/
structure Reading where
  given : Given := {}
  pending : Option (Setting × List String) := none
deriving DecidableEq, Repr, Inhabited

namespace Reading

/-- Makes the pending setting. -/
def settle (r : Reading) : Except UsageError Reading :=
  match r.pending with
  | none => .ok r
  | some (s, texts) => (s.accept texts r.given).map fun g => ⟨g, none⟩

/-- Takes a setting, with its value if one is attached to it. Also says whether a value is to come.
-/
def take (r : Reading) (s : Setting) (value : Option String) : Except UsageError (Reading × Bool) :=
  match r.settle with
  | .error e => .error e
  | .ok r =>
    match value with
    | some text => (s.accept [text] r.given).map fun g => (⟨g, none⟩, false)
    | none => .ok (⟨r.given, some (s, [])⟩, true)

/-- Asks for help, once the pending setting is made. -/
def help (r : Reading) : Except UsageError (Reading × Bool) :=
  match r.settle with
  | .error e => .error e
  | .ok _ => .error .helpRequested

/-- Takes a word as a value of the pending setting. -/
def takeWord (r : Reading) (scope : Scope) (text : String) : Except UsageError (Reading × Bool) :=
  match r.pending with
  | none => .error (scope.stray text)
  | some (s, texts) => .ok (⟨r.given, some (s, texts ++ [text])⟩, s.takesMany)

/-- Takes an argument. `wanted` says whether a value is to come. -/
def takeArgument (r : Reading) (scope : Scope) (wanted : Bool) (text : String) :
    Except UsageError (Reading × Bool) :=
  match Argument.ofString text with
  | .escape => .error (.unknownArgument text)
  | .long name value =>
    if name = "help" then
      if value.isSome then .error (.unwantedValue text) else r.help
    else
      match scope.settings.find? (·.long = name) with
      | none => .error (.unknownArgument text)
      | some s => r.take s value
  | .short letter value =>
    if letter = 'h' then r.help
    else
      match scope.settings.find? (·.letter? = some letter) with
      | none => .error (.unknownArgument text)
      | some s => r.take s value
  | .plain text => if wanted then r.takeWord scope text else .error (scope.stray text)

/-- Reads arguments up to a command or to the end. Gives the command and the arguments behind it, if
there is one. -/
def read (scope : Scope) (r : Reading) (wanted : Bool) :
    List String → Except UsageError (Reading × Option (CommandName × List String))
  | [] => .ok (r, none)
  | text :: rest =>
    match if wanted then none else scope.command? text with
    | some c => .ok (r, some (c, rest))
    | none =>
      if text = "--" then
        match rest with
        | [] => .ok (r, none)
        | next :: _ => .error (scope.strayBehindEscape next)
      else
        match r.takeArgument scope wanted text with
        | .error e => .error e
        | .ok (r, wanted) => read scope r wanted rest

end Reading

end OffsideBench.CommandLine
