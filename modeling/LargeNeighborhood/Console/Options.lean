import LargeNeighborhood.Search.Gauge
import LargeNeighborhood.Search.Solver
import LargeNeighborhood.Text.Numeral
import LargeNeighborhood.Text.Quoted

set_option autoImplicit false

/-! # Command-line options

An option is spelled out or cut short, as long as no other option begins in the same way. Its
value is the next argument, or stands behind an equals sign in the same one. An argument that
starts with a dash is a value only if it is a negative number or has a space in it; behind an
argument `--` everything is a value. A value that belongs to no option is refused once all
options are read. Of an option given more than once the last value counts.
-/

namespace LargeNeighborhood

/-- What can be asked for. -/
inductive Flag where
  | help
  | input
  | iterations
  | acceptance
  | reaction
  | seed
  | resultsDir
  | noPlots
  deriving DecidableEq, Repr

namespace Flag

/-- All spellings, in the order in which they are listed. -/
def spellings : List (String × Flag) :=
  [("-h", .help), ("--help", .help), ("--input", .input), ("--iterations", .iterations),
   ("--acceptance", .acceptance), ("--reaction", .reaction), ("--seed", .seed),
   ("--results-dir", .resultsDir), ("--no-plots", .noPlots)]

/-- The spellings of one flag, separated by slashes. -/
def title (f : Flag) : String :=
  "/".intercalate ((spellings.filter fun s => s.2 == f).map Prod.fst)

def takesValue : Flag → Bool
  | .help | .noPlots => false
  | _ => true

end Flag

/-- What is wrong with the arguments. -/
inductive Complaint where
  | ambiguous (argument : String) (spellings : List String)
  | valueMissing (flag : Flag)
  | valueIgnored (flag : Flag) (value : String)
  | notWhole (flag : Flag) (value : String)
  | notReal (flag : Flag) (value : String)
  | notAChoice (flag : Flag) (value : String) (choices : List String)
  | unrecognized (arguments : List String)
  | tooFewIterations (iterations : Int)
  | reactionOutOfRange (reaction : Float)

namespace Complaint

/-- A complaint about one flag. -/
def about (flag : Flag) (text : String) : String := "argument " ++ flag.title ++ ": " ++ text

def message : Complaint → String
  | .ambiguous argument spellings =>
      "ambiguous option: " ++ argument ++ " could match " ++ ", ".intercalate spellings
  | .valueMissing flag => about flag "expected one argument"
  | .valueIgnored flag value => about flag ("ignored explicit argument " ++ quoted value)
  | .notWhole flag value => about flag ("invalid int value: " ++ quoted value)
  | .notReal flag value => about flag ("invalid float value: " ++ quoted value)
  | .notAChoice flag value choices =>
      about flag ("invalid choice: " ++ quoted value ++ " (choose from " ++
        ", ".intercalate (choices.map quoted) ++ ")")
  | .unrecognized arguments => "unrecognized arguments: " ++ " ".intercalate arguments
  | .tooFewIterations n => "--iterations must be at least 1, got " ++ toString n
  | .reactionOutOfRange r => "--reaction must be in [0, 1], got " ++ shortest r

/-- A complaint with the name of the program in front. -/
def line (c : Complaint) : String := "alns-tsp: error: " ++ c.message

end Complaint

/-- How the reading of arguments ends when there are no options to go on with. -/
inductive Refusal where
  /-- The user asks for help. -/
  | help
  | complaint (c : Complaint)

/-- What a run is asked to do. Without an input the bundled instance is solved. -/
structure Options where
  input : Option String
  iterations : Int
  acceptance : String
  reaction : Float
  seed : Int
  resultsDir : String
  plots : Bool

namespace Options

def standard : Options where
  input := none
  iterations := 50000
  acceptance := Gauge.hillClimbingName
  reaction := 0.8
  seed := 42
  resultsDir := "results"
  plots := true

/-- The name under which the instance is shown. -/
def inputName (o : Options) : String := o.input.getD "<default>"

/-! ## Sorting the arguments -/

/-- An argument by its role. A flag, in one of its spellings, may bring a value in the same
argument. -/
inductive Word where
  | value (text : String)
  | separator
  | unknown (text : String)
  | flag (f : Flag) (spelling : String) (attached : Option String)

/-- Digits, and nothing else but a line end at the very end. -/
def areDigits (cs : List Char) : Bool :=
  let cs := if cs.getLast? = some '\n' then cs.dropLast else cs
  !cs.isEmpty && cs.all fun c => (Digit.value? c).isSome

/-- Whether an argument is a negative number without an exponent. -/
def isNegative (argument : String) : Bool :=
  match argument.toList with
  | '-' :: cs =>
      areDigits cs ||
        (match cs.span fun c => (Digit.value? c).isSome with
         | (_, '.' :: places) => areDigits places
         | _ => false)
  | _ => false

/-- An argument up to its first equals sign, and what stands behind it. -/
def splitEquals (argument : String) : String × Option String :=
  match argument.toList.span (· != '=') with
  | (front, '=' :: back) => (String.ofList front, some (String.ofList back))
  | _ => (argument, none)

/-- The spellings that an argument may stand for, with the value that it brings. -/
def candidates (argument : String) : List (String × Flag × Option String) :=
  if argument.startsWith "--" then
    let (front, back) := splitEquals argument
    (Flag.spellings.filter fun s => s.1.startsWith front).map fun (spelling, f) =>
      (spelling, f, back)
  else
    -- the value of a short flag may stand right behind it
    let short := String.ofList (argument.toList.take 2)
    (Flag.spellings.filter fun s => s.1 == short).map fun (spelling, f) =>
      (spelling, f, some (String.ofList (argument.toList.drop 2)))

/-- The role of an argument in front of `--`. -/
def interpret (argument : String) : Except Complaint Word :=
  if !argument.startsWith "-" then .ok (.value argument)
  else
    match Flag.spellings.lookup argument with
    | some f => .ok (.flag f argument none)
    | none =>
        if argument.length = 1 then .ok (.value argument)
        else
          let (front, back) := splitEquals argument
          match Flag.spellings.lookup front, back with
          | some f, some text => .ok (.flag f front (some text))
          | _, _ =>
              match candidates argument with
              | [(spelling, f, attached)] => .ok (.flag f spelling attached)
              | [] =>
                  -- a negative number is a value, and so is a text with a blank in it
                  if isNegative argument || argument.contains ' ' then .ok (.value argument)
                  else .ok (.unknown argument)
              | several => .error (.ambiguous argument (several.map Prod.fst))

/-- The roles of all arguments. -/
def sort : List String → Except Complaint (List Word)
  | [] => .ok []
  | argument :: rest =>
      -- behind it everything is a value
      if argument = "--" then .ok (.separator :: rest.map .value)
      else do
        let word ← interpret argument
        return word :: (← sort rest)

/-! ## Reading the options -/

/-- Sets the value of a flag. -/
def set (o : Options) (f : Flag) (value : String) : Except Complaint Options :=
  match f with
  | .input => .ok { o with input := some value }
  | .iterations =>
      match readWhole value with
      | .ok n => .ok { o with iterations := n }
      | .error _ => .error (.notWhole f value)
  | .acceptance =>
      let name := upper value
      let choices := [Gauge.hillClimbingName, Gauge.annealingName, Gauge.recordToRecordName]
      if name ∈ choices then .ok { o with acceptance := name }
      else .error (.notAChoice f name choices)
  | .reaction =>
      match readReal? value with
      | some x => .ok { o with reaction := x }
      | none => .error (.notReal f value)
  | .seed =>
      match readWhole value with
      | .ok n => .ok { o with seed := n }
      | .error _ => .error (.notWhole f value)
  | .resultsDir => .ok { o with resultsDir := value }
  | .noPlots => .ok { o with plots := false }
  | .help => .ok o

/-- What follows the short flag for help in the same argument. More such flags ask for help once
more; nothing else is of use, and an empty text is not either. -/
def helpWith (text : String) : Refusal :=
  let rest := text.toList.dropWhile (· == 'h')
  if rest.isEmpty && !text.isEmpty then .help
  else .complaint (.valueIgnored .help (String.ofList rest))

/-- A flag that takes no value, with what is attached to it. -/
def switch (o : Options) (f : Flag) (spelling : String) (attached : Option String) :
    Except Refusal Options :=
  match f, attached with
  | .help, none => .error .help
  | _, none => .ok { o with plots := false }
  | f, some text =>
      if spelling.startsWith "--" then .error (.complaint (.valueIgnored f text))
      else .error (helpWith text)

/-- Reads the options from sorted arguments, and collects what belongs to none of them. -/
def consume (o : Options) (extra : List String) :
    List Word → Except Refusal (Options × List String)
  | [] => .ok (o, extra)
  | .value text :: rest => consume o (extra ++ [text]) rest
  | .separator :: rest => consume o (extra ++ ["--"]) rest
  | .unknown text :: rest => consume o (extra ++ [text]) rest
  | .flag f spelling attached :: rest =>
      if f.takesValue then
        match attached, rest with
        | some text, rest => do
            let o ← (set o f text).mapError .complaint
            consume o extra rest
        | none, .value text :: rest => do
            let o ← (set o f text).mapError .complaint
            consume o extra rest
        | none, _ => .error (.complaint (.valueMissing f))
      else do
        let o ← switch o f spelling attached
        consume o extra rest

/-- Checks the ranges of the options. -/
def check (o : Options) : Except Complaint Options :=
  if o.iterations < 1 then .error (.tooFewIterations o.iterations)
  else if ¬ Solver.isShare (.real o.reaction) then .error (.reactionOutOfRange o.reaction)
  else .ok o

/-- Reads the arguments of the command line. -/
def parse (arguments : List String) : Except Refusal Options := do
  let words ← (sort arguments).mapError .complaint
  let (o, extra) ← consume standard [] words
  if !extra.isEmpty then throw (.complaint (.unrecognized extra))
  (check o).mapError .complaint

end Options

end LargeNeighborhood
