import FlowTour.Tour.BranchAndBound

/-!
The command line: a subcommand with options, each of which takes a value and may be given once, and
a verbosity flag that may stand anywhere and be repeated. Anything else is a usage error; asking for
help ends the reading.
-/

namespace FlowTour.CommandLine

/-- What the value of an option has to be. -/
inductive ValueKind where
  | path
  | text
  | method
  | count
  deriving DecidableEq, Repr

structure OptionSpec where
  name : String
  kind : ValueKind
  required : Bool

inductive Subcommand where
  | maximumFlow
  | minimumCut
  | minCostFlow
  | tour
  deriving DecidableEq, Repr

namespace Subcommand

def ofName? : String → Option Subcommand
  | "max-flow" => some maximumFlow
  | "min-cut" => some minimumCut
  | "min-cost-flow" => some minCostFlow
  | "tsp" => some tour
  | _ => none

def options : Subcommand → List OptionSpec
  | maximumFlow =>
      [⟨"edges", .path, true⟩, ⟨"start", .text, true⟩, ⟨"end", .text, true⟩, ⟨"output", .path, false⟩]
  | minimumCut => [⟨"edges", .path, true⟩, ⟨"start", .text, true⟩, ⟨"end", .text, true⟩]
  | minCostFlow =>
      [⟨"edges", .path, true⟩, ⟨"supply", .path, true⟩, ⟨"capacity", .path, false⟩,
        ⟨"output", .path, false⟩]
  | tour => [⟨"edges", .path, true⟩, ⟨"method", .method, false⟩, ⟨"max-expansions", .count, false⟩]

end Subcommand

inductive Halt where
  | usage
  | help
  deriving DecidableEq, Repr

/-- A count is written in digits with an optional plus sign and fits 64 bits. -/
def readCount? (text : String) : Option Nat :=
  let digits := match text.toList with
    | '+' :: rest => rest
    | rest => rest
  if digits ≠ [] ∧ digits.all Char.isDigit then
    let value := digits.foldl (fun value digit => 10 * value + (digit.toNat - '0'.toNat)) 0
    if value < 18446744073709551616 then some value else none
  else none

def readMethod? : String → Option Tour.Method
  | "greedy" => some .nearestNeighbor
  | "bnb" => some .branchAndBound
  | _ => none

def ValueKind.accepts (value : String) : ValueKind → Bool
  | path => value ≠ ""
  | text => true
  | method => (readMethod? value).isSome
  | count => (readCount? value).isSome

structure Given where
  values : List (String × String)
  verbosity : Nat

namespace Given

def value? (given : Given) (name : String) : Option String := given.values.lookup name

def add (specs : List OptionSpec) (given : Given) (name value : String) : Except Halt Given :=
  match specs.find? fun spec => spec.name = name with
  | none => .error .usage
  | some spec =>
      if (given.value? name).isSome || !spec.kind.accepts value then .error .usage
      else .ok { given with values := given.values ++ [(name, value)] }

end Given

def readFlags : List Char → Given → Except Halt Given
  | [], given => .ok given
  | 'v' :: rest, given => readFlags rest { given with verbosity := given.verbosity + 1 }
  | 'h' :: _, _ => .error .help
  | _, _ => .error .usage

inductive Word where
  /-- Two dashes alone: no options follow. -/
  | separator
  | option (name : String) (value : Option String)
  | flags (letters : List Char)
  | plain (text : String)

def Word.ofString (text : String) : Word :=
  match text.toList with
  | ['-', '-'] => .separator
  | '-' :: '-' :: rest =>
      let name := String.ofList (rest.takeWhile (· ≠ '='))
      match rest.dropWhile (· ≠ '=') with
      | _ :: value => .option name (some (String.ofList value))
      | [] => .option name none
  | '-' :: letter :: letters => .flags (letter :: letters)
  | _ => .plain text

def isValue (text : String) : Bool :=
  match Word.ofString text with
  | .plain _ => true
  | _ => false

def readOptions (specs : List OptionSpec) : List String → Given → Except Halt Given
  | [], given => .ok given
  | word :: rest, given =>
      match Word.ofString word with
      | .separator => if rest = [] then .ok given else .error .usage
      | .plain _ => .error .usage
      | .flags letters => do readOptions specs rest (← readFlags letters given)
      | .option "verbose" none =>
          readOptions specs rest { given with verbosity := given.verbosity + 1 }
      | .option "help" none => .error .help
      | .option name (some value) => do readOptions specs rest (← given.add specs name value)
      | .option name none =>
          match rest with
          | [] => .error .usage
          | value :: later =>
              if isValue value then do readOptions specs later (← given.add specs name value)
              else .error .usage

inductive Command where
  | maximumFlow (edges start finish : String) (output : Option String)
  | minimumCut (edges start finish : String)
  | minCostFlow (edges supply : String) (capacity output : Option String)
  | tour (edges : String) (method : Tour.Method) (budget : Option Nat)

/-- Nothing when a required option is missing. -/
def Given.command? (given : Given) : Subcommand → Option Command
  | .maximumFlow => do
      return .maximumFlow (← given.value? "edges") (← given.value? "start") (← given.value? "end")
        (given.value? "output")
  | .minimumCut => do
      return .minimumCut (← given.value? "edges") (← given.value? "start") (← given.value? "end")
  | .minCostFlow => do
      return .minCostFlow (← given.value? "edges") (← given.value? "supply")
        (given.value? "capacity") (given.value? "output")
  | .tour => do
      return .tour (← given.value? "edges") (((given.value? "method").bind readMethod?).getD default)
        ((given.value? "max-expansions").bind readCount?)

/-- Help is about the program as a whole or about one subcommand, and itself counts as one. -/
def isHelpTopic : List String → Bool
  | [] => true
  | [topic] => topic = "help" || (Subcommand.ofName? topic).isSome
  | _ => false

/-- Only flags may stand before the subcommand. -/
def readArguments : List String → Given → Except Halt Command
  | [], _ => .error .usage
  | word :: rest, given =>
      match Word.ofString word with
      | .separator => .error .usage
      | .flags letters => do readArguments rest (← readFlags letters given)
      | .option "verbose" none =>
          readArguments rest { given with verbosity := given.verbosity + 1 }
      | .option "help" none => .error .help
      | .option _ _ => .error .usage
      | .plain name =>
          match Subcommand.ofName? name with
          | some subcommand => do
              let given ← readOptions subcommand.options rest given
              match given.command? subcommand with
              | some command => .ok command
              | none => .error .usage
          | none => .error (if name = "help" ∧ isHelpTopic rest then .help else .usage)

def parse (arguments : List String) : Except Halt Command := readArguments arguments ⟨[], 0⟩

end FlowTour.CommandLine
