import Lockstep.Run.Check

/-! The arguments of the program.

Arguments are read in three layers. One argument is looked at by its form alone: an option
in its long form, a cluster of short ones, or a word (`Scope.item`). A list of them becomes
the options up to the first word (`Scope.items`), where an option that takes a value and
was not given one in its own argument takes the next one. Options are then settled in order
(`settle`): each at most once, and the request for the version is obeyed as soon as it is
reached. -/
namespace Lockstep.CommandLine

inductive Key where
  | verbose
  | silent
  | version
  | listing
  | trace
  | reference
  | tick
  | entry
  | noEcho
  | log
  | timestamps
  deriving DecidableEq, Repr

/-- Where an option stands: before the command's name, or after it. -/
inductive Scope where
  | program
  | check
  | print
  deriving DecidableEq, Repr

namespace Key

def takesValue : Key → Bool
  | listing | trace | reference | tick | entry | log => true
  | _ => false

/-- Whether a value may be empty; a path may not. -/
def allowsEmpty : Key → Bool
  | entry => true
  | _ => false

/-- The names of an option: its letter, and its long names. -/
def names : Key → Option Char × List String
  | verbose => (some 'v', ["verbose"])
  | silent => (some 'q', ["silent"])
  | version => (some 'V', ["version"])
  | listing => (some 'a', ["asmFile"])
  | trace => (some 's', ["sstOut"])
  | reference => (some 'k', ["spikeOut"])
  | tick => (some 'c', ["callStk"])
  | entry => (none, ["entry"])
  | noEcho => (none, ["no-echo"])
  | log => (some 'l', ["logFile"])
  | timestamps => (some 't', ["timeStamp", "ts"])

end Key

namespace Scope

/-- The options of a scope. Verbosity may be chosen in all of them. -/
def keys : Scope → List Key
  | program => [.verbose, .silent, .version]
  | check => [.verbose, .silent, .listing, .trace, .reference, .tick, .entry, .noEcho]
  | print => [.verbose, .silent, .log, .timestamps]

def short? (scope : Scope) (letter : Char) : Option Key :=
  scope.keys.find? (·.names.1 == some letter)

def long? (scope : Scope) (name : Text) : Option Key :=
  scope.keys.find? (·.names.2.any (·.toList == name))

end Scope

inductive Given where
  /-- An option, with its value or an empty text. -/
  | option (key : Key) (value : Text)
  | invalid
  deriving DecidableEq, Repr

/-- What one argument is by its form. -/
inductive Item where
  /-- Options that need nothing else. -/
  | options (given : List Given)
  /-- Options of which the last one takes the next argument as its value. -/
  | awaiting (given : List Given) (key : Key)
  | word
  deriving DecidableEq, Repr

def Item.prepend (given : Given) : Item → Item
  | options more => options (given :: more)
  | awaiting more key => awaiting (given :: more) key
  | word => options [given]

/-- A value without the one equals sign before it. -/
def withoutEquals : Text → Text
  | '=' :: value => value
  | value => value

namespace Scope

/-- Letters behind one dash: options without values up to the first that takes one, which
takes the letters after it. -/
def cluster (scope : Scope) : Text → Item
  | [] => .options []
  | letter :: rest =>
    match scope.short? letter with
    | none => .options [.invalid]
    | some key =>
      if key.takesValue then
        if rest.isEmpty then .awaiting [] key else .options [.option key (withoutEquals rest)]
      else (cluster scope rest).prepend (.option key [])

/-- A name behind two dashes, and a value behind an equals sign. -/
def long (scope : Scope) (text : Text) : Item :=
  let (name, value?) := match Text.splitOnce ['='] text with
    | some (name, value) => (name, some value)
    | none => (text, none)
  match scope.long? name, value? with
  | none, _ => .options [.invalid]
  | some key, some value =>
    .options [if key.takesValue then .option key value else .invalid]
  | some key, none => if key.takesValue then .awaiting [] key else .options [.option key []]

/-- One argument. A lone dash is a word, and so are two. -/
def item (scope : Scope) : Text → Item
  | ['-'] => .word
  | ['-', '-'] => .word
  | '-' :: '-' :: name => scope.long name
  | '-' :: letters => scope.cluster letters
  | _ => .word

end Scope

/-- Whether an argument can be the value of the option before it. -/
def isValue : Text → Bool
  | ['-'] => true
  | '-' :: _ => false
  | _ => true

/-- The options up to the first word, and the arguments from there on. -/
def Scope.items (scope : Scope) : List Text → List Given × List Text
  | [] => ([], [])
  | argument :: rest =>
    match scope.item argument with
    | .word => ([], argument :: rest)
    | .options given =>
      let (more, words) := items scope rest
      (given ++ more, words)
    | .awaiting given key =>
      match rest with
      | [] => (given ++ [.invalid], [])
      | value :: rest =>
        if isValue value then
          let (more, words) := items scope rest
          (given ++ .option key value :: more, words)
        else (given ++ [.invalid], [])

/-- Options by their keys, each with its value. -/
abbrev Settings := List (Key × Text)

namespace Settings

def has (settings : Settings) (key : Key) : Bool := settings.any (·.1 == key)

def value? (settings : Settings) (key : Key) : Option Text :=
  (settings.find? (·.1 == key)).map Prod.snd

end Settings

/-- Why there is nothing to run. -/
inductive Refusal where
  | usage
  | version
  deriving DecidableEq, Repr

/-- The options of a scope, each at most once. -/
def settle (settings : Settings) : List Given → Except Refusal Settings
  | [] =>
    if settings.has .verbose && settings.has .silent then .error .usage else .ok settings
  | .invalid :: _ => .error .usage
  | .option key value :: rest =>
    if key = .version then .error .version
    else if settings.has key then .error .usage
    else if key.takesValue && value.isEmpty && !key.allowsEmpty then .error .usage
    else settle (settings ++ [(key, value)]) rest

/-! ### Commands -/

inductive Command where
  | check (plan : Check.Plan)
  | print (log : Text) (stamped : Bool)
  deriving DecidableEq, Repr

structure Request where
  command : Command
  verbose : Bool := false
  silent : Bool := false
  deriving DecidableEq, Repr

def Settings.required (settings : Settings) (key : Key) : Except Refusal Text :=
  match settings.value? key with
  | some value => .ok value
  | none => .error .usage

def Settings.tick (settings : Settings) : Except Refusal (Option Tick) :=
  match settings.value? .tick with
  | none => .ok none
  | some token =>
    match Tick.read? token with
    | some tick => .ok (some tick)
    | none => .error .usage

def Settings.check (settings : Settings) : Except Refusal Command := do
  let listing ← settings.required .listing
  let trace ← settings.required .trace
  let tick ← settings.tick
  return .check
    { listing, trace, tick
      reference := settings.value? .reference
      entry := (settings.value? .entry).getD "main".toList
      echo := !settings.has .noEcho }

def Settings.print (settings : Settings) : Except Refusal Command := do
  let log ← settings.required .log
  return .print log (settings.has .timestamps)

/-- The scope of a command's name, and what its options ask for. -/
def commandNamed? (name : Text) : Option (Scope × (Settings → Except Refusal Command)) :=
  if name == "check".toList then some (.check, Settings.check)
  else if name == "print".toList then some (.print, Settings.print)
  else none

/-- What the arguments ask for. After a command's name there are options only; two dashes
may end them. -/
def parse (arguments : List Text) : Except Refusal Request := do
  let (given, words) := Scope.program.items arguments
  let outer ← settle [] given
  match words with
  | [] => throw .usage
  | name :: rest =>
    match commandNamed? name with
    | none => throw .usage
    | some (scope, command) =>
      let (given, words) := scope.items rest
      let inner ← settle [] given
      if words.isEmpty || words == ["--".toList] then
        return { command := ← command inner
                 verbose := outer.has .verbose || inner.has .verbose
                 silent := outer.has .silent || inner.has .silent }
      else throw .usage

end Lockstep.CommandLine
