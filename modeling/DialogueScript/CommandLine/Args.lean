import DialogueScript.Config

/-!
The arguments of the program. Options can stand before the command or after it, at most once in each
of the two places, and the later place wins. After `--` no argument is an option.
-/

namespace DialogueScript.CommandLine

inductive Command where
  /-- Reports every diagnostic. -/
  | check (paths : List String)
  /-- Prints the tree. -/
  | tree (path : String)
  /-- Prints every token with its kind and position. -/
  | tokens (path : String)
deriving DecidableEq, Repr

structure Invocation where
  config : Config
  command : Command
deriving DecidableEq, Repr

/-- The options given in one place. -/
structure Settings where
  tabWidth : Option Nat := none
  optionBreak : Option OptionBreak := none
  joinLineGroups : Bool := false
deriving DecidableEq, Repr

/-- A number from 0 to 65535 in decimal, with an optional sign. -/
def width? (s : String) : Option Nat :=
  let (negative, digits) := match s.toList with
    | '+' :: cs => (false, cs)
    | '-' :: cs => (true, cs)
    | cs => (false, cs)
  if digits.isEmpty || !digits.all Char.isDigit then none
  else
    let n := digits.foldl (fun n c => 10 * n + (c.toNat - '0'.toNat)) 0
    if 65535 < n || (negative && 0 < n) then none else some n

def optionBreak? : String → Option OptionBreak
  | "after-nested-block" => some .afterNestedBlock
  | "after-any-item" => some .afterAnyItem
  | "never" => some .never
  | _ => none

namespace Settings

/-- Sets an option that takes a value. -/
def withValue? (s : Settings) (name value : String) : Option Settings :=
  match name with
  | "--tab-width" => do
    if s.tabWidth.isSome then none
    return { s with tabWidth := some (← width? value) }
  | "--option-break" => do
    if s.optionBreak.isSome then none
    return { s with optionBreak := some (← optionBreak? value) }
  | _ => none

/-- Sets an option that takes no value. -/
def withFlag? (s : Settings) (name : String) : Option Settings :=
  if name = "--join-line-groups" && !s.joinLineGroups then
    some { s with joinLineGroups := true }
  else none

/-- The settings of both places together. -/
def config (before after : Settings) : Config where
  tabWidth := (after.tabWidth <|> before.tabWidth).getD 8
  optionBreak := (after.optionBreak <|> before.optionBreak).getD .afterNestedBlock
  breakLineGroups := !(before.joinLineGroups || after.joinLineGroups)

end Settings

/-- Whether an argument can only be an option. -/
def looksLikeOption (arg : String) : Bool :=
  match arg.toList with
  | '-' :: _ :: _ => true
  | _ => false

/-- The name of an option, and the value after its `=` if it has one. -/
def splitOption (arg : String) : String × Option String :=
  let cs := arg.toList
  let name := String.ofList (cs.takeWhile (· ≠ '='))
  match cs.dropWhile (· ≠ '=') with
  | _ :: value => (name, some (String.ofList value))
  | [] => (name, none)

/-- Reads the options and paths after the command. -/
def readAfter (s : Settings) : List String → Option (Settings × List String)
  | [] => some (s, [])
  | arg :: rest =>
    if arg = "--" then some (s, rest)
    else if looksLikeOption arg then
      match splitOption arg, rest with
      | (name, some value), rest => do readAfter (← s.withValue? name value) rest
      | (name, none), rest =>
        match s.withFlag? name, rest with
        | some s, rest => readAfter s rest
        | none, value :: rest =>
          if looksLikeOption value then none
          else do readAfter (← s.withValue? name value) rest
        | none, [] => none
    else (readAfter s rest).map fun (s, paths) => (s, arg :: paths)

/-- Reads the options before the command, up to its name. -/
def readBefore (s : Settings) : List String → Option (Settings × String × List String)
  | [] => none
  | arg :: rest =>
    if arg = "--" then none
    else if looksLikeOption arg then
      match splitOption arg, rest with
      | (name, some value), rest => do readBefore (← s.withValue? name value) rest
      | (name, none), rest =>
        match s.withFlag? name, rest with
        | some s, rest => readBefore s rest
        | none, value :: rest =>
          if looksLikeOption value then none
          else do readBefore (← s.withValue? name value) rest
        | none, [] => none
    else some (s, arg, rest)

/-- The command with a given name and paths. -/
def command? : String → List String → Option Command
  | "check", path :: paths => some (.check (path :: paths))
  | "tree", [path] => some (.tree path)
  | "tokens", [path] => some (.tokens path)
  | _, _ => none

/-- What the arguments ask for, unless they are not understood. -/
def Invocation.ofArgs? (args : List String) : Option Invocation := do
  let (before, name, rest) ← readBefore {} args
  let (after, paths) ← readAfter {} rest
  return { config := before.config after, command := ← command? name paths }

end DialogueScript.CommandLine
