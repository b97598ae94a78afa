import ClusterMetrics.Text.Blank

/-! # Options and words

The arguments of a command are options and words. An option is given by its long name or by a letter;
letters may be written together, and a value follows the name after an equals sign, the letter at
once, or as the next argument. After two dashes alone there are only words. -/

namespace ClusterMetrics.CommandLine
variable {σ : Type}

/-- Why no command is run. -/
inductive Stop where
  | help
  | version
  /-- The arguments are no use of the program. -/
  | misuse
deriving Repr, DecidableEq

def orMisuse {α : Type} : Option α → Except Stop α
  | some a => .ok a
  | none => .error .misuse

/-- How an option changes the settings; with no result it is misused. -/
inductive Action (σ : Type) where
  | flag (apply : σ → Option σ)
  | value (apply : String → σ → Option σ)
  | stop (why : Stop)

/-- An option that waits for its value. -/
abbrev Pending (σ : Type) := Option (String → σ → Option σ)

structure OptionRule (σ : Type) where
  name : String
  letter : Option Char
  action : Action σ

/-- The form of an argument. -/
inductive Shape where
  | dashes
  | name (name : String) (value : Option String)
  | letters (cs : List Char)
  | word
deriving Repr, DecidableEq

/-- A single dash is a word. -/
def shapeOf (argument : String) : Shape :=
  match argument.toList with
  | ['-', '-'] => .dashes
  | '-' :: '-' :: rest =>
    match Text.cutAt (· == '=') rest with
    | some (name, value) => .name (String.ofList name) (some (String.ofList value))
    | none => .name (String.ofList rest) none
  | '-' :: c :: rest => .letters (c :: rest)
  | _ => .word

/-- The settings after an option given by its name. -/
def readName (rules : List (OptionRule σ)) (name : String) (value : Option String) (s : σ) :
    Except Stop (σ × Pending σ) :=
  match rules.find? (·.name == name), value with
  | none, _ => .error .misuse
  | some rule, none =>
    match rule.action with
    | .flag apply => do return (← orMisuse (apply s), none)
    | .value apply => .ok (s, some apply)
    | .stop why => .error why
  | some rule, some value =>
    match rule.action with
    | .value apply => do return (← orMisuse (apply value s), none)
    | _ => .error .misuse

/-- The settings after options given by their letters. -/
def readLetters (rules : List (OptionRule σ)) : List Char → σ → Except Stop (σ × Pending σ)
  | [], s => .ok (s, none)
  | c :: rest, s =>
    match rules.find? (·.letter == some c) with
    | none => .error .misuse
    | some rule =>
      match rule.action with
      | .flag apply => do readLetters rules rest (← orMisuse (apply s))
      | .stop why => .error why
      | .value apply =>
        match rest with
        | [] => .ok (s, some apply)
        | '=' :: value | value => do return (← orMisuse (apply (String.ofList value) s), none)

/-- What the arguments of a command may be. -/
structure Usage (σ : Type) where
  rules : List (OptionRule σ)
  /-- The settings after one more word. -/
  addWord : String → σ → Option σ

namespace Usage

def readFrom (u : Usage σ) : Pending σ → List String → σ → Except Stop σ
  | none, [], s => .ok s
  | some _, [], _ => .error .misuse
  | some apply, argument :: rest, s =>
    if shapeOf argument = .word then do u.readFrom none rest (← orMisuse (apply argument s))
    else .error .misuse
  | none, argument :: rest, s =>
    match shapeOf argument with
    | .dashes => rest.foldlM (fun s word => orMisuse (u.addWord word s)) s
    | .name name value => do
      let (s, pending) ← readName u.rules name value s
      u.readFrom pending rest s
    | .letters cs => do
      let (s, pending) ← readLetters u.rules cs s
      u.readFrom pending rest s
    | .word => do u.readFrom none rest (← orMisuse (u.addWord argument s))

/-- Reads arguments into the settings. -/
def read (u : Usage σ) (arguments : List String) (s : σ) : Except Stop σ := u.readFrom none arguments s

end Usage

end ClusterMetrics.CommandLine
