import ApiClient.Config.Loading
import ApiClient.FileTree
import ApiClient.Generation
import ApiClient.Inspection

/-! The command line: what its arguments ask for, as a script of effects. -/

namespace ApiClient.CommandLine

/-- What is to be done, step by step. A file that cannot be read has no text, and writing tells
whether it went well. -/
inductive Script where
  | done
  | fail (message : String)
  | usage
  | out (text : String) (next : Script)
  | err (text : String) (next : Script)
  | read (path : String) (next : Option String → Script)
  | write (path text : String) (next : Bool → Script)

/-! ### Arguments -/

/-- An option that takes a value. -/
structure Opt where
  long : String
  short : Option Char := none
  isPath : Bool := false

def input : Opt := ⟨"input", some 'i', true⟩

def output : Opt := ⟨"output", some 'o', true⟩

def config : Opt := ⟨"config", some 'c', true⟩

def hookFactory : Opt := { long := "hook-factory" }

def clientRequest : Opt := { long := "client-request" }

def errorType : Opt := { long := "error-type" }

/-- The value of each option that is given. -/
abbrev Given := List (String × String)

/-- An option may be given once, and no path is empty. -/
def give (o : Opt) (value : String) (given : Given) : Option Given :=
  if (given.lookup o.long).isSome ∨ (o.isPath ∧ value = "") then none
  else some ((o.long, value) :: given)

/-- Whether an argument is an option, and so no value of one. -/
def isOption (arg : String) : Bool := arg ≠ "-" && arg.toList.head? == some '-'

/-- What an argument names: an option with the value that is attached to it, the end of the options,
or nothing. -/
inductive Word where
  | option (o : Opt) (attached : Option String)
  | endOfOptions
  | stray

def longWord (opts : List Opt) (cs : List Char) : Word :=
  let name := cs.takeWhile (· != '=')
  let attached := match cs.drop name.length with
    | _ :: value => some (String.ofList value)
    | [] => none
  match opts.find? (·.long == String.ofList name) with
  | some o => .option o attached
  | none => .stray

/-- A value may follow a letter directly, or behind an equals sign. -/
def shortWord (opts : List Opt) (c : Char) (cs : List Char) : Word :=
  let attached := match cs with
    | [] => none
    | '=' :: value => some (String.ofList value)
    | value => some (String.ofList value)
  match opts.find? (·.short == some c) with
  | some o => .option o attached
  | none => .stray

def word (opts : List Opt) (arg : String) : Word :=
  match arg.toList with
  | ['-', '-'] => .endOfOptions
  | '-' :: '-' :: cs => longWord opts cs
  | '-' :: c :: cs => shortWord opts c cs
  | _ => .stray

def parse (opts : List Opt) : List String → Given → Option Given
  | [], given => some given
  | arg :: rest, given =>
    match word opts arg, rest with
    | .option o (some value), rest => give o value given >>= parse opts rest
    | .option o none, value :: rest =>
      if isOption value then none else give o value given >>= parse opts rest
    | .option _ none, [] => none
    | .endOfOptions, [] => some given
    | .endOfOptions, _ :: _ => none
    | .stray, _ => none

/-! ### Commands -/

def version : String := "reqgen 0.1.0\n"

def withInput (path : String) (next : String → Script) : Script :=
  .read path fun
    | some text => next text
    | none => .fail ("Error: Failed to read " ++ path)

def withConfig (path : Option String) (next : Config → Script) : Script :=
  match path with
  | none => next {}
  | some path =>
    .err ("Loading config: " ++ path ++ "\n") <|
      .read path fun text =>
        match Config.load path text with
        | .ok c => next c
        | .error _ => .fail ("Error: Failed to load config: " ++ path)

/-- Options take the place of what the file says. -/
def overridden (given : Given) (c : Config) : Config :=
  { c with
    hookFactory := (given.lookup hookFactory.long).getD c.hookFactory
    clientRequest := (given.lookup clientRequest.long).getD c.clientRequest
    errorType := (given.lookup errorType.long).getD c.errorType }

def emit (path : Option String) (source : String) : Script :=
  match path with
  | none => .out source .done
  | some path => .write path source fun
    | true => .err ("Wrote " ++ path ++ "\n") .done
    | false => .fail ("Error: Failed to write " ++ path)

def generate (given : Given) (path : String) : Script :=
  withConfig (given.lookup config.long) fun c =>
    withInput path fun text =>
      .err ("Generating requests from " ++ path ++ "...\n") <|
        match ApiClient.generate (overridden given c) text with
        | .ok source => emit (given.lookup output.long) source
        | .error _ => .fail ("Error: Failed to generate from " ++ path)

def inspect (path : String) : Script :=
  withInput path fun text =>
    match resolveText text with
    | .ok r => .out (r.toJson.pretty ++ "\n") .done
    | .error (.load _) => .fail ("Error: Failed to parse " ++ path)
    | .error (.reference _) => .fail ("Error: Failed to resolve " ++ path)

/-- Every command needs an input. -/
def command (opts : List Opt) (args : List String) (run : Given → String → Script) : Script :=
  match parse opts args [] with
  | none => .usage
  | some given =>
    match given.lookup input.long with
    | some path => run given path
    | none => .usage

def script (args : List String) : Script :=
  match args with
  | "generate" :: args =>
    command [input, output, config, hookFactory, clientRequest, errorType] args generate
  | "inspect" :: args => command [input] args fun _ => inspect
  | "--version" :: _ => .out version .done
  | arg :: _ => if ['-', 'V'].isPrefixOf arg.toList then .out version .done else .usage
  | [] => .usage

/-! ### Running below a working directory -/

structure Outcome where
  code : Nat
  out : String := ""
  err : String := ""
  files : FileTree

def Script.run : Script → FileTree → Outcome
  | .done, t => { code := 0, files := t }
  | .fail message, t => { code := 1, err := message, files := t }
  | .usage, t => { code := 2, files := t }
  | .out text next, t => let o := next.run t; { o with out := text ++ o.out }
  | .err text next, t => let o := next.run t; { o with err := text ++ o.err }
  | .read path next, t => (next (t.text? path)).run t
  | .write path text next, t =>
    match t.write? path text with
    | some t => (next true).run t
    | none => (next false).run t

end ApiClient.CommandLine
