import Bindery.Entries
import Bindery.Number.Whole

/-!
# Words of a command line

What each word of a command line is: an option, perhaps with a value in the same word, or an
argument.  A long option may be cut short as long as only one option begins that way.  The value of
an option may follow an equals sign; that of a short option may also follow it directly.  What
follows a short option that takes no value are more short options.  A negative number is an
argument, and so is everything after two dashes.

* `Word.classify` and `Word.classifyAll` tell what words are.
* `Step.ofWords` is what the words of one part of a command line ask for, one thing after another.
-/

namespace Bindery

/-- The options of the program. -/
inductive CommandOption
  | help
  | version
  | root
  | settings
  | includeIgnored
  | profile
  | all
  | yes
  | output
  | maxBytes
  | clear
  deriving DecidableEq, Repr

/-- Whether an option has a value. -/
def CommandOption.takesValue : CommandOption → Bool
  | root | settings | profile | output | maxBytes => true
  | _ => false

/-- The options that a part of a command line may have, by their names. -/
abbrev OptionNames := Entries CommandOption

/-- What a word is. -/
inductive Word
  | argument
  /-- Two dashes, after which everything is an argument. -/
  | separator
  /-- An option that is unknown here. -/
  | unknown
  /-- An option with a name of two dashes or of one, and what stands after it in the word. -/
  | option (o : CommandOption) (short : Bool) (attached : Option Text)
  deriving DecidableEq, Repr

namespace Word

/-- Whether a name begins with a single dash. -/
def isShort (w : Text) : Bool :=
  !"--".toList.isPrefixOf w

/-- The text before the first equals sign and the value after it, if there is one. -/
def cutAtEquals (w : Text) : Text × Option Text :=
  match w.dropWhile (· != '=') with
  | [] => (w, none)
  | _ :: value => (w.takeWhile (· != '='), some value)

/-- The options that a word with an unknown name may stand for. -/
def candidates (names : OptionNames) (w : Text) : List Word :=
  if isShort w then
    (names.filter (·.1 == w.take 2)).map fun n => .option n.2 true (some (w.drop 2))
  else
    let (name, attached) := cutAtEquals w
    (names.filter (name.isPrefixOf ·.1)).map fun n => .option n.2 false attached

/-- Whether every character is a decimal digit and there is one. -/
def isDigits (s : Text) : Bool :=
  !s.isEmpty && s.all fun c => (Number.digit? c).isSome

/-- Whether a text is a minus sign and a number; a fraction needs no digits before its point. -/
def isNegativeNumber (w : Text) : Bool :=
  match (if w.getLast? == some '\n' then w.dropLast else w) with
  | '-' :: r =>
    let whole := r.takeWhile (· != '.')
    match r.dropWhile (· != '.') with
    | [] => isDigits whole
    | _ :: fraction => (whole.isEmpty || isDigits whole) && isDigits fraction
  | _ => false

/-- What a word is; nothing if it may be cut short from several options. -/
def classify (names : OptionNames) (w : Text) : Option Word :=
  if w.head? != some '-' then some .argument
  else
    match names.get? w with
    | some o => some (.option o (isShort w) none)
    | none =>
      let (name, attached) := cutAtEquals w
      match attached.bind fun _ => names.get? name with
      | some o => some (.option o (isShort w) attached)
      | none =>
        if w.length = 1 then some .argument
        else
          match candidates names w with
          | [word] => some word
          | [] => some (if isNegativeNumber w || w.contains ' ' then .argument else .unknown)
          | _ => none

/-- What all words are; nothing if one of them is unclear. -/
def classifyAll (names : OptionNames) : List Text → Option (List (Text × Word))
  | [] => some []
  | w :: rest =>
    if w = "--".toList then some ((w, .separator) :: rest.map fun a => (a, .argument))
    else
      match classify names w, classifyAll names rest with
      | some c, some cs => some ((w, c) :: cs)
      | _, _ => none

end Word

/-- One thing that words ask for. -/
inductive Step
  /-- An option with its value, if it has one. -/
  | use (o : CommandOption) (value : Option Text)
  /-- A word that has no place here. -/
  | extra
  /-- Something that cannot be understood. -/
  | wrong
  /-- The name of a command and the words that belong to it. -/
  | command (name : Text) (words : List Text)
  deriving DecidableEq, Repr

namespace Step

/-- What a word of options asks for, and the option whose value is the next word. -/
structure Bundle where
  steps : List Step
  pending : Option CommandOption
  deriving DecidableEq, Repr

/-- An option with a value in the same word.  Two dashes are no value. -/
def useAttached (o : CommandOption) (value : Text) : Step :=
  use o (if value = "--".toList then none else some value)

/-- The options in one word, where `text` follows the short option `o`. -/
def bundle (names : OptionNames) (o : CommandOption) : Text → Option Bundle
  | [] => some (if o.takesValue then ⟨[], some o⟩ else ⟨[use o none], none⟩)
  | c :: r =>
    if o.takesValue then some ⟨[useAttached o (c :: r)], none⟩
    else
      match names.get? ['-', c] with
      | none => none
      | some next => (bundle names next r).map fun b => { b with steps := use o none :: b.steps }

/-- What an option asks for with what stands after it in its word. -/
def ofOption (names : OptionNames) (o : CommandOption) (short : Bool) (attached : Option Text) :
    Option Bundle :=
  match attached with
  | none => bundle names o []
  | some a =>
    if o.takesValue then some ⟨[useAttached o a], none⟩
    else if short && !a.isEmpty then bundle names o a
    else none

/-- What words ask for.  `commandNext` says whether the first argument is the name of a command. -/
def ofWords (names : OptionNames) (commandNext : Bool) : List (Text × Word) → List Step
  | [] => []
  | (_, .separator) :: _ => [extra]
  | (_, .unknown) :: rest => extra :: ofWords names commandNext rest
  | (w, .argument) :: rest =>
    if commandNext then [command w (rest.map Prod.fst)] else extra :: ofWords names commandNext rest
  | (_, .option o short attached) :: rest =>
    match ofOption names o short attached with
    | none => [wrong]
    | some ⟨steps, none⟩ => steps ++ ofWords names commandNext rest
    | some ⟨steps, some pending⟩ =>
      match rest with
      | (value, .argument) :: rest =>
        steps ++ use pending (some value) :: ofWords names commandNext rest
      | _ => [wrong]

end Step

end Bindery
