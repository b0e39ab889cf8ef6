/-!
# AlertRules.CommandLine.Arguments — the words of a command

A command is followed by switches and positional arguments in any order.  A switch has a long name
(`--name`), perhaps a short one (`-n`), and may take a value, which is the next argument or is
attached (`--name=value`, `-nvalue`, `-n=value`).  A value that is not attached must not look like a
switch.  Every switch may be given once.  After `--` all arguments are positional, and a command has
room for so many of them only.

The reader is an automaton on arguments: `Reader.step` takes one, `Reader.finish` ends the row.  The
first argument that does not fit ends the reading.
-/

namespace AlertRules.CommandLine

/-- Why a command is not carried out: the version or the help is wanted, or the arguments are wrong. -/
inductive Stop where
  | version
  | help
  | usage
  deriving DecidableEq

/-- What a switch takes: nothing, any text, or a path, which must not be empty. -/
inductive Takes where
  | nothing
  | text
  | path
  deriving DecidableEq

/-- A switch of a command. -/
structure Switch where
  long : String
  short : Option Char
  takes : Takes
  deriving DecidableEq

/-- What a command takes: its switches, and how many positional arguments at most. -/
structure Form where
  switches : List Switch
  positionals : Nat
  deriving DecidableEq

/-- What was given: the switches with their values, by long names, and the positional arguments. -/
structure Given where
  switches : List (String × String)
  positionals : List String

namespace Given

/-- The switch was given. -/
def has (g : Given) (name : String) : Bool :=
  (g.switches.lookup name).isSome

/-- The value of the switch. -/
def value? (g : Given) (name : String) : Option String :=
  g.switches.lookup name

/-- The value of a switch that has to be given. -/
def required (g : Given) (name : String) : Except Stop String :=
  match g.value? name with
  | some v => .ok v
  | none => .error .usage

/-- The switch given with that value, for the first time. -/
def accept (g : Given) (switch : Switch) (value : String) : Except Stop Given :=
  if g.has switch.long then .error .usage
  else if switch.takes = .path ∧ value = "" then .error .usage
  else .ok { g with switches := g.switches ++ [(switch.long, value)] }

end Given

/-- What was given so far, a switch that waits for its value, and whether everything else is positional.
-/
structure Reader where
  given : Given
  pending : Option Switch
  rest : Bool

namespace Reader

/-- Nothing has been given. -/
def start : Reader := ⟨⟨[], []⟩, none, false⟩

/-- The reader with what is given now. -/
def accepting (r : Reader) (result : Except Stop Given) : Except Stop Reader :=
  result.map fun given => { r with given, pending := none }

/-- One more positional argument, if there are fewer than `room`. -/
def positional (r : Reader) (room : Nat) (arg : String) : Except Stop Reader :=
  if r.given.positionals.length < room then
    .ok { r with given := { r.given with positionals := r.given.positionals ++ [arg] } }
  else .error .usage

/-- A switch, perhaps with a value attached to it. -/
def use (r : Reader) (switch : Switch) (attached : Option (List Char)) : Except Stop Reader :=
  match switch.takes, attached with
  | .nothing, none => r.accepting (r.given.accept switch "")
  | .nothing, some _ => .error .usage
  | _, some value => r.accepting (r.given.accept switch (String.ofList value))
  | _, none => .ok { r with pending := some switch }

/-- What follows an equals sign at the front. -/
def behindSign? : List Char → Option (List Char)
  | '=' :: value => some value
  | _ => none

/-- A long name, perhaps with a value. -/
def long (r : Reader) (switches : List Switch) (cs : List Char) : Except Stop Reader :=
  let name := String.ofList (cs.takeWhile (· ≠ '='))
  let attached := behindSign? (cs.dropWhile (· ≠ '='))
  match switches.find? (·.long = name) with
  | some switch => r.use switch attached
  | none => .error (if name = "help" ∧ attached.isNone then .help else .usage)

/-- The value behind a short name, without an equals sign in front of it. -/
def attachedValue? : List Char → Option (List Char)
  | [] => none
  | '=' :: value => some value
  | value => some value

/-- A short name, perhaps with a value. -/
def short (r : Reader) (switches : List Switch) (c : Char) (cs : List Char) : Except Stop Reader :=
  match switches.find? (·.short = some c) with
  | some switch => r.use switch (attachedValue? cs)
  | none => .error (if c = 'h' then .help else .usage)

/-- One argument further. -/
def step (form : Form) (r : Reader) (arg : String) : Except Stop Reader :=
  if r.rest then r.positional form.positionals arg
  else
    match arg.toList, r.pending with
    | '-' :: _ :: _, some _ => .error .usage
    | ['-', '-'], none => .ok { r with rest := true }
    | '-' :: '-' :: cs, none => r.long form.switches cs
    | '-' :: c :: cs, none => r.short form.switches c cs
    | _, some switch => r.accepting (r.given.accept switch arg)
    | _, none => r.positional form.positionals arg

/-- What was given in the end; no switch may wait for a value. -/
def finish (r : Reader) : Except Stop Given :=
  if r.pending.isSome then .error .usage else .ok r.given

end Reader

/-- What the arguments give. -/
def Given.read (form : Form) (args : List String) : Except Stop Given :=
  match args.foldlM (Reader.step form) Reader.start with
  | .error stop => .error stop
  | .ok r => r.finish

end AlertRules.CommandLine
