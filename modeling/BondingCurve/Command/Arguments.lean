import BondingCurve.Error
import BondingCurve.Text.Digit

/-!
# Arguments of a command

A command line is a list of texts. Before any option takes its value, each text is classified by itself (`classify`):

* an option by its name, by a beginning of its name that fits no other option, or by either with a value after `=`;
* the short name for help with any text attached;
* `--`, after which every text is an argument;
* an argument: a text without a dash in front, a negative number like `-15` or `-1.5`, or a text with a space;
* anything else is unknown.

Then the options take their values from left to right (`takeAll`). Unknown and stray texts are only counted, since
they are refused at the end, after every earlier fault.
-/

namespace BondingCurve.Command

/-- Why a command does not run. -/
inductive Halt
  /-- The arguments are refused. -/
  | refused
  /-- The arguments ask for help. -/
  | help
  /-- A value that cannot be read at all. -/
  | failed (error : CurveError)

/-- What an option does with a value. -/
inductive Arity
  | flag
  | value
  /-- The option that asks for help. -/
  | help
  deriving DecidableEq

/-- An option of a command. -/
structure OptionSpec where
  /-- The name with its dashes. -/
  name : String
  arity : Arity

/-- A classified text. -/
inductive Token
  | argument (text : String)
  | option (spec : OptionSpec) (attached : Option String)
  | unknown
  | separator

/-- The two names of the help option. -/
def helpOptions : List OptionSpec :=
  [⟨"-h", .help⟩, ⟨"--help", .help⟩]

/-! ### Classification -/

/-- A character that is a digit in any script. -/
def isDigit (c : Char) : Bool :=
  (Text.digitValue? c).isSome

/-- The end of a text, or a line feed that ends it. -/
def isEnd (text : List Char) : Bool :=
  text = [] || text = ['\n']

/-- A minus and digits, with at most one point before the last of them; a line feed may follow. -/
def isNegativeNumber (text : List Char) : Bool :=
  match text with
  | '-' :: rest =>
    match rest.dropWhile isDigit with
    | '.' :: places => places.any isDigit && isEnd (places.dropWhile isDigit)
    | tail => rest.any isDigit && isEnd tail
  | _ => false

/-- The text before the first `=` and the text after it. -/
def splitEquals (text : List Char) : List Char × Option (List Char) :=
  match text.dropWhile (· != '=') with
  | [] => (text, none)
  | _ :: value => (text.takeWhile (· != '='), some value)

/-- The options that the beginning of a text may stand for: those whose name it abbreviates, or the short name for
help with the rest of the text attached. -/
def abbreviated (specs : List OptionSpec) (text : List Char) : List Token :=
  match text with
  | '-' :: '-' :: _ =>
    let (name, value) := splitEquals text
    (specs.filter fun s => name.isPrefixOf s.name.toList).map fun s => .option s (value.map String.ofList)
  | '-' :: 'h' :: tail => [.option ⟨"-h", .help⟩ (some (String.ofList tail))]
  | _ => []

/-- The token of one text. -/
def classifyOne (specs : List OptionSpec) (text : String) : Except Halt Token :=
  let chars := text.toList
  if chars.head? ≠ some '-' then .ok (.argument text)
  else match specs.find? (·.name = text) with
  | some spec => .ok (.option spec none)
  | none =>
    if chars.length = 1 then .ok (.argument text)
    else
      let (name, value) := splitEquals chars
      match value, specs.find? (·.name.toList = name) with
      | some value, some spec => .ok (.option spec (some (String.ofList value)))
      | _, _ =>
        match abbreviated specs chars with
        | [token] => .ok token
        | _ :: _ :: _ => .error .refused
        | [] =>
          if isNegativeNumber chars || chars.contains ' ' then .ok (.argument text) else .ok .unknown

/-- The tokens of the texts of a command line. -/
def classify (specs : List OptionSpec) : List String → Except Halt (List Token)
  | [] => .ok []
  | text :: rest =>
    if text = "--" then .ok (.separator :: rest.map .argument)
    else do
      let token ← classifyOne specs text
      let tokens ← classify specs rest
      pure (token :: tokens)

/-! ### Values -/

/-- The effect of the help option. It takes no value, but after the short name its letter may be repeated. -/
def helpHalt (spec : OptionSpec) : Option String → Halt
  | none => .help
  | some text =>
    if spec.name = "-h" && text ≠ "" && text.toList.all (· == 'h') then .help else .refused

/-- Lets the options take their values. `assign` reads a value into the settings and `raise` sets a flag. The result
tells whether there were unknown or stray texts. -/
def takeAll {σ : Type} (assign : OptionSpec → String → σ → Except Halt σ) (raise : OptionSpec → σ → σ) :
    List Token → σ → Except Halt (σ × Bool)
  | [], settings => .ok (settings, false)
  | .option spec attached :: rest, settings =>
    match spec.arity, attached with
    | .help, attached => .error (helpHalt spec attached)
    | .flag, none => takeAll assign raise rest (raise spec settings)
    | .flag, some _ => .error .refused
    | .value, some text => do
      takeAll assign raise rest (← assign spec text settings)
    | .value, none =>
      match rest with
      | .argument text :: rest => do
        takeAll assign raise rest (← assign spec text settings)
      | _ => .error .refused
  | _ :: rest, settings => do
    let (settings, _) ← takeAll assign raise rest settings
    pure (settings, true)

/-- Reads the arguments of a command into its settings; unknown and stray texts are refused at the end. -/
def readAll {σ : Type} (specs : List OptionSpec) (assign : OptionSpec → String → σ → Except Halt σ)
    (raise : OptionSpec → σ → σ) (arguments : List String) (settings : σ) : Except Halt (σ × Bool) := do
  takeAll assign raise (← classify (helpOptions ++ specs) arguments) settings

end BondingCurve.Command
