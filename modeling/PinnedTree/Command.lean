/-!
The command line: what its arguments ask for. Options are given as `--name value` or
`--name=value` and at most once; a value that follows its option must not start with a dash. The
options for the log and for the limits may stand before and after the name of the command.
-/

namespace PinnedTree

inductive CommandAction where
  /-- Shows a node with some of its children. -/
  | show (path : String) (offset : Nat) (count : Option Nat)
  /-- Shows a node with all that is below it, down to some depth. -/
  | tree (path : String) (depth : Option Nat) (page : Nat)
  /-- Shows the listing of a node as the store gives it. -/
  | list (path : String) (depth offset : Nat) (max : Option Nat) (filter : Option String)
  deriving DecidableEq, Repr

/-- A command line that can be carried out. -/
structure Command where
  verbose : Bool
  /-- The file of the limits. -/
  config : Option String
  /-- The file of the tree. -/
  fixture : String
  action : CommandAction
  deriving DecidableEq, Repr

namespace Command

/-- The options given before or after the name of a command. -/
structure Options where
  verbose : Bool := false
  values : List (String × String) := []

/-- Whether a text may follow an option as its value. -/
def isValue (text : String) : Bool :=
  match text.toList with
  | '-' :: _ :: _ => false
  | _ => true

def splitAttached (text : List Char) : String × Option String :=
  match text.dropWhile (· ≠ '=') with
  | [] => (.ofList text, none)
  | _ :: value => (.ofList (text.takeWhile (· ≠ '=')), some (.ofList value))

/-- Gives a value to an option that is known and has none yet. -/
def Options.give (options : Options) (known : List String) (name value : String) : Option Options :=
  if name ∈ known ∧ (options.values.lookup name).isNone then
    some { options with values := options.values ++ [(name, value)] }
  else none

/-- Turns the log on, once. -/
def Options.logged (options : Options) : Option Options :=
  if options.verbose then none else some { options with verbose := true }

/-- Reads options up to the first argument that is none, and answers the arguments from there on.
Nothing may follow a bare pair of dashes. -/
def readOptions (known : List String) (options : Options) :
    List String → Option (Options × List String)
  | [] => some (options, [])
  | argument :: rest =>
    match argument.toList with
    | ['-', '-'] => if rest = [] then some (options, []) else none
    | '-' :: '-' :: text =>
      match splitAttached text with
      | (name, some value) => do
        let options ← options.give known name value
        readOptions known options rest
      | (name, none) =>
        if name = "verbose" then do
          let options ← options.logged
          readOptions known options rest
        else
          match rest with
          | [] => none
          | value :: rest =>
            if isValue value then do
              let options ← options.give known name value
              readOptions known options rest
            else none
    | ['-', 'v'] => do
      let options ← options.logged
      readOptions known options rest
    | '-' :: _ :: _ => none
    | _ => some (options, argument :: rest)

/-- A number below a limit. A plus sign may stand before it, and a minus sign before a zero where
`signed` says so. -/
def number? (limit : Nat) (signed : Bool) (text : String) : Option Nat :=
  let digits (text : List Char) : Option Nat :=
    if text ≠ [] ∧ text.all Char.isDigit then some (Nat.ofDigitChars 10 text 0) else none
  (match text.toList with
    | '+' :: rest => digits rest
    | '-' :: rest => if signed then (digits rest).filter (· = 0) else none
    | text => digits text).filter (· < limit)

def optionalNumber? (options : Options) (name : String) (limit : Nat) (signed : Bool) :
    Option (Option Nat) :=
  match options.values.lookup name with
  | none => some none
  | some text => (number? limit signed text).map some

/-- The file that an option names, which is missing when the option is. It must have a name. -/
def optionalFile? (options : Options) (name : String) : Option (Option String) :=
  match options.values.lookup name with
  | none => some none
  | some file => if file = "" then none else some (some file)

/-- Numbers are below this unless they are depths. -/
def numberLimit : Nat := UInt64.size

/-- Depths are below this. -/
def depthLimit : Nat := UInt32.size

/-- The names of the commands, each with its own options. -/
def actions : List (String × List String) :=
  [("show", ["fixture", "path", "offset", "count"]),
    ("tree", ["fixture", "path", "depth", "page"]),
    ("list", ["fixture", "path", "depth", "offset", "max", "filter"])]

def action? (name : String) (options : Options) : Option CommandAction := do
  let path := (options.values.lookup "path").getD "/"
  if name = "show" then
    let offset ← optionalNumber? options "offset" numberLimit false
    let count ← optionalNumber? options "count" numberLimit false
    some (.show path (offset.getD 0) count)
  else if name = "tree" then
    let depth ← optionalNumber? options "depth" depthLimit true
    let page ← optionalNumber? options "page" numberLimit false
    some (.tree path depth (page.getD 100))
  else
    let depth ← optionalNumber? options "depth" depthLimit true
    let offset ← optionalNumber? options "offset" numberLimit false
    let max ← optionalNumber? options "max" numberLimit false
    some (.list path (depth.getD 0) (offset.getD 0) max (options.values.lookup "filter"))

/-- Reads a command line, if it is one that can be carried out. -/
def ofArguments? (arguments : List String) : Option Command := do
  let (outer, rest) ← readOptions ["config"] {} arguments
  match rest with
  | [] => none
  | name :: rest =>
    let known ← actions.lookup name
    let (inner, rest) ← readOptions ("config" :: known) {} rest
    if rest ≠ [] then none
    else do
      let outerConfig ← optionalFile? outer "config"
      let innerConfig ← optionalFile? inner "config"
      let fixture ← optionalFile? inner "fixture"
      let fixture ← fixture
      let action ← action? name inner
      some {
        verbose := outer.verbose || inner.verbose
        config := innerConfig.or outerConfig
        fixture
        action }

end Command

end PinnedTree
