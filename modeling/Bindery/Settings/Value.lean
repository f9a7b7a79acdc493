import Bindery.Json.Value
import Bindery.Number.Whole
import Bindery.Settings.Basic

/-!
# Values of settings

How a value is taken for a setting.  Texts must be texts.  A flag is a truth value, the numbers 0
and 1, or one of a few words in any case.  A number is whole, a double without a fraction, a truth
value, or a text that writes a whole number, with a plus sign, zeros in front, single underscores
and a fraction of zeros allowed.

* `Settings.ofValues` takes the values of all settings, or lists every problem.
-/

namespace Bindery

/-- What is wrong with a value. -/
inductive ValueProblem
  | boolParsing
  | boolType
  | intParsing
  | intType
  | intFromFloat
  | finiteNumber
  | intParsingSize
  | stringType
  | listType
  | dictType
  deriving DecidableEq, Repr

/-- The word for a problem. -/
def ValueProblem.word : ValueProblem → Text
  | boolParsing => "bool_parsing".toList
  | boolType => "bool_type".toList
  | intParsing => "int_parsing".toList
  | intType => "int_type".toList
  | intFromFloat => "int_from_float".toList
  | finiteNumber => "finite_number".toList
  | intParsingSize => "int_parsing_size".toList
  | stringType => "string_type".toList
  | listType => "list_type".toList
  | dictType => "dict_type".toList

/-- A problem and where it is: the setting, and the item or member in it. -/
structure SettingProblem where
  place : List Text
  problem : ValueProblem
  deriving DecidableEq, Repr

namespace Settings

/-! ## Numbers written as text -/

/-- What is left when the zeros and underscores after a first zero are dropped; a zero stays if
nothing or a fraction follows.  Zeros may stand before a minus sign, too. -/
def afterZeros (last : Char) : Text → Option Text
  | [] => some [last]
  | '0' :: r => afterZeros '0' r
  | '_' :: r => afterZeros '_' r
  | '.' :: r => some (last :: '.' :: r)
  | c :: r => if c.isDigit ∨ c = '-' then some (c :: r) else none

/-- A text that begins with a digit, without the zeros in front. -/
def dropZeros : Text → Option Text
  | '0' :: r => afterZeros '0' r
  | c :: r => if c.isDigit then some (c :: r) else none
  | [] => none

/-- The text without a plus sign in front, and without the zeros after a sign. -/
def dropSignAndZeros : Text → Option Text
  | '+' :: r => dropZeros r
  | '-' :: r => (dropZeros r).map ('-' :: ·)
  | r => dropZeros r

/-- The text without a fraction of zeros. -/
def dropFraction (s : Text) : Text :=
  match s.dropWhile (· != '.') with
  | _ :: d :: r => if (d :: r).all (· == '0') then s.takeWhile (· != '.') else s
  | _ => s

/-- Whether two underscores stand side by side. -/
def hasDoubleUnderscore : Text → Bool
  | '_' :: '_' :: _ => true
  | _ :: r => hasDoubleUnderscore r
  | [] => false

/-- The text without its underscores, if each stands between other characters. -/
def dropUnderscores (s : Text) : Text :=
  if s.head? == some '_' || s.getLast? == some '_' || hasDoubleUnderscore s then s
  else s.filter (· != '_')

/-- A minus sign in front of a text: whether it is there, and the rest. -/
def dropMinus : Text → Bool × Text
  | '-' :: r => (true, r)
  | r => (false, r)

/-- The number that digits stand for, a minus sign before them allowed and zeros in front not. -/
def plainNumber? (s : Text) : Option Int :=
  let (negative, ds) := dropMinus s
  if ds.isEmpty || !ds.all Char.isDigit || (ds.head? == some '0' && ds.length != 1) then none
  else if Number.maxDigits < ds.length then none
  else
    let n : Int := Number.ofDigits (ds.map fun c => c.toNat - '0'.toNat)
    some (if negative then -n else n)

/-- Whether a text begins with a number of too many digits, whatever follows it. -/
def beginsTooLong (s : Text) : Bool :=
  let ds := (dropMinus s).2.takeWhile Char.isDigit
  ds.head? != some '0' && Number.maxDigits < ds.length

/-- The number that a text writes.  Too many digits are told apart only if nothing is before them
but a minus sign. -/
def numberOfText (s : Text) : Except ValueProblem Int :=
  if beginsTooLong s then .error .intParsingSize
  else
    match (dropSignAndZeros (Number.dropPadding s)).map (dropUnderscores ∘ dropFraction) with
    | none => .error .intParsing
    | some r => (plainNumber? r).elim (.error .intParsing) .ok

/-- The whole number that a double is; numbers beyond 64 bits are too large. -/
def numberOfReal (x : Binary64) : Except ValueProblem Int :=
  match x with
  | .notANumber | .infinite _ => .error .finiteNumber
  | _ =>
    match x.toInt? with
    | none => .error .intFromFloat
    | some n => if -0x8000000000000000 < n ∧ n < 0x8000000000000000 then .ok n else .error .intParsingSize

/-! ## Values of each kind -/

/-- A value as a number. -/
def number (v : Json) : Except ValueProblem Int :=
  match v with
  | .integer n => .ok n
  | .bool b => .ok (if b then 1 else 0)
  | .real x => numberOfReal x
  | .string s => numberOfText s
  | _ => .error .intType

/-- The words for no. -/
def noWords : List Text := ["0", "off", "f", "false", "n", "no"].map String.toList

/-- The words for yes. -/
def yesWords : List Text := ["1", "on", "t", "true", "y", "yes"].map String.toList

/-- A number as a flag. -/
def flagOfNumber (n : Int) : Except ValueProblem Bool :=
  if n = 0 then .ok false else if n = 1 then .ok true else .error .boolParsing

/-- A value as a flag. -/
def flag (v : Json) : Except ValueProblem Bool :=
  match v with
  | .bool b => .ok b
  | .string s =>
    let word := s.map Char.toLower
    if noWords.contains word then .ok false
    else if yesWords.contains word then .ok true
    else .error .boolParsing
  | .integer n =>
    if -0x8000000000000000 ≤ n ∧ n < 0x8000000000000000 then flagOfNumber n else .error .boolType
  | .real x =>
    match numberOfReal x with
    | .ok n => flagOfNumber n
    | .error _ => .error .boolType
  | _ => .error .boolType

/-- A value as a text. -/
def text (v : Json) : Except ValueProblem Text :=
  match v with
  | .string s => .ok s
  | _ => .error .stringType

/-! ## All settings -/

/-- A value taken for a setting, with the problems that were found. -/
abbrev Taken (α : Type) := Except (List SettingProblem) α

/-- A value of one kind taken for a setting, or the setting's default if there is none. -/
def take {α : Type} (read : Json → Except ValueProblem α) (values : Entries Json) (name : String)
    (fallback : α) : Taken α :=
  match values.get? name.toList with
  | none => .ok fallback
  | some v => (read v).mapError fun p => [⟨[name.toList], p⟩]

/-- Puts together values and problems under names. -/
def collect {α : Type} (name : String) :
    List (Text × Except ValueProblem α) → Taken (List (Text × α))
  | [] => .ok []
  | (key, r) :: rest =>
    match r, collect name rest with
    | .ok a, .ok as => .ok ((key, a) :: as)
    | .ok _, .error ps => .error ps
    | .error p, .ok _ => .error [⟨[name.toList, key], p⟩]
    | .error p, .error ps => .error (⟨[name.toList, key], p⟩ :: ps)

/-- A list of texts taken for a setting. -/
def takeTexts (values : Entries Json) (name : String) (fallback : List Text) :
    Taken (List Text) :=
  match values.get? name.toList with
  | none => .ok fallback
  | some (.array items) =>
    (collect name (items.mapIdx fun i v => (Text.ofNat i, text v))).map (·.map Prod.snd)
  | some _ => .error [⟨[name.toList], .listType⟩]

/-- A map of texts taken for a setting. -/
def takeTextMap (values : Entries Json) (name : String) (fallback : Entries Text) :
    Taken (Entries Text) :=
  match values.get? name.toList with
  | none => .ok fallback
  | some (.object members) => collect name (members.map fun (k, v) => (k, text v))
  | some _ => .error [⟨[name.toList], .dictType⟩]

/-- The problems of a value taken. -/
def problemsOf {α : Type} : Taken α → List SettingProblem
  | .ok _ => []
  | .error ps => ps

/-- Whether one list of texts comes before another or is the same. -/
def placeLe : List Text → List Text → Bool
  | [], _ => true
  | _ :: _, [] => false
  | a :: s, b :: t => if a = b then placeLe s t else Text.le a b

/-- The order in which problems are listed: by place, then by their words. -/
def problemLe (p q : SettingProblem) : Bool :=
  if p.place = q.place then Text.le p.problem.word q.problem.word else placeLe p.place q.place

/-- The settings that values give, defaults in the place of those that are missing; or all problems
of the values. -/
def ofValues (d : Settings) (values : Entries Json) : Taken Settings :=
  let version := take text values "VERSION" d.version
  let configFileName := take text values "CONFIG_FILE_NAME" d.configFileName
  let ignoreFileName := take text values "IGNORE_FILE_NAME" d.ignoreFileName
  let includeIgnored := take flag values "INCLUDE_GIT_IGNORED" d.includeIgnored
  let excludePatterns := takeTexts values "EXCLUDE_PATTERNS" d.excludePatterns
  let headerPrefix := take text values "HEADER_PREFIX" d.headerPrefix
  let headerSuffix := take text values "HEADER_SUFFIX" d.headerSuffix
  let commentMarks := takeTextMap values "LANGUAGE_COMMENT_MAP" d.commentMarks
  let maxBytes := take number values "MAX_CONTENT_BYTES" d.maxBytes
  let logLevel := take text values "LOG_LEVEL" d.logLevel
  let logJson := take flag values "LOG_JSON" d.logJson
  let autoCopy := take flag values "AUTO_COPY_TO_CLIPBOARD" d.autoCopy
  let decorationSymbol := take text values "FILE_DECORATION_SYMBOL" d.decorationSymbol
  let stateDirectory := take text values "STATE_DIR" d.stateDirectory
  let settings : Taken Settings := do
    return { version := ← version, configFileName := ← configFileName,
             ignoreFileName := ← ignoreFileName, includeIgnored := ← includeIgnored,
             excludePatterns := ← excludePatterns, headerPrefix := ← headerPrefix,
             headerSuffix := ← headerSuffix, commentMarks := ← commentMarks,
             maxBytes := ← maxBytes, logLevel := ← logLevel, logJson := ← logJson,
             autoCopy := ← autoCopy, decorationSymbol := ← decorationSymbol,
             stateDirectory := ← stateDirectory }
  settings.mapError fun _ =>
    (problemsOf version ++ problemsOf configFileName ++ problemsOf ignoreFileName ++
      problemsOf includeIgnored ++ problemsOf excludePatterns ++ problemsOf headerPrefix ++
      problemsOf headerSuffix ++ problemsOf commentMarks ++ problemsOf maxBytes ++
      problemsOf logLevel ++ problemsOf logJson ++ problemsOf autoCopy ++
      problemsOf decorationSymbol ++ problemsOf stateDirectory).mergeSort problemLe

end Settings

end Bindery
