import TuneScript.Number.Binary
import TuneScript.Text.Quoted
import TuneScript.Value.Basic

/-!
Why an operation can fail. Each cause carries what its message needs, and the wording
stands in `Failure.message` alone.
-/

namespace TuneScript

/-- What has a length and positions, where a message names it. -/
inductive Sequence where
  | list | text | tuple
  deriving DecidableEq

def Sequence.name : Sequence → String
  | .list => "list"
  | .text => "string"
  | .tuple => "tuple"

inductive Failure where
  | unsupportedOperands (operator : String) (left right : Kind)
  | notComparable (operator : String) (left right : Kind)
  | cannotConcatenate (left right : Kind)
  | cannotRepeat (count : Kind)
  | repeatTooLarge
  | repeatedTooLong
  | noMemory
  | divisionByZero (operand : Kind)
  | quotientTooLarge
  | intTooLarge
  | invalidInteger (source : String)
  | invalidFloat (source : String)
  | numeralTooLong (digits : Nat)
  | integerTextTooLong
  | infinityToInteger
  | nanToInteger
  | notANumber (kind : Kind)
  | noAttribute (owner member : String)
  | notIterable (kind : Kind)
  | noLength (kind : Kind)
  | notSubscriptable (kind : Kind)
  | textIndex (kind : String)
  | listIndex (kind : String)
  | outOfRange (sequence : Sequence)
  | missingKey (key : String)
  | unhashable (kind : String)
  | unknownFormatCode
  | unsupportedFormat (kind : Kind)
  | cannotJoin
  | notText (position : Nat) (kind : Kind)
  | negativeSampleCount (count : Int)
  | negativeDimension
  | shapeMismatch (source : List Nat) (target : Nat)
  | notAFloat (kind : Kind)
  | nestedTooFar
  | unevenLists (shape : List Nat)
  | shapesDiffer (shapes : List (List Nat))
  | resultShape (target result : List Nat)
  | textOperand (operation : String) (width : Nat) (first : Bool)
  | textEnd (first : Bool)
  | wideEnd (position : Nat)
  | resultNotNumbers (operation : String)
  | oversized (measure : String)
  | arrayTooBig
  | outOfMemory (samples : Nat)
  | sleepNotANumber
  | sleepOutOfRange
  | sleepTooLong
  | sleepNegative
  | sleepNotInteger (kind : Kind)
  | device (reason : String)
  | endOfInput
  | isDirectory (path : String)
  | missingFile (path : String)
  | undecodable (byte : UInt8) (first last : Nat) (reason : String)
  | nestedTooDeep
  deriving DecidableEq

abbrev Result := Except Failure

/-- Whole numbers of more digits are neither read nor written. -/
def digitLimit : Nat := 4300

namespace Failure

private def named (s : String) : String := "'" ++ s ++ "'"

def byteText (b : UInt8) : String := String.ofList ('0' :: 'x' :: Text.hex 2 b.toNat)

/-- The literal that could not be read is shown by at most its first 200 characters. -/
def shownLiteral (source : String) : String :=
  String.ofList ((Text.quoted source).toList.take 200)

/-- Lengths in parentheses, with a separator between them. -/
def lengths (separator : String) : List Nat → String
  | [n] => "(" ++ toString n ++ ",)"
  | shape => "(" ++ separator.intercalate (shape.map fun n => toString n) ++ ")"

/-- The size of so many samples, to three digits. -/
def memoryText (samples : Nat) : String :=
  let bytes := 8 * samples
  let unitOf := fun k => Nat.pow 1024 k
  let guess := (max bytes.log2 1) / 10
  let k := if roundHalfEven bytes (unitOf guess) = 1024 then guess + 1 else guess
  let part := fun scale => roundHalfEven (bytes * scale) (unitOf k)
  let padded := fun n => if n < 10 then "0" ++ toString n else toString n
  let number :=
    if part 100 < 1000 then toString (part 100 / 100) ++ "." ++ padded (part 100 % 100)
    else if part 10 < 1000 then toString (part 10 / 10) ++ "." ++ toString (part 10 % 10)
    else toString (part 1) ++ "."
  number ++ " " ++ (["bytes", "KiB", "MiB", "GiB", "TiB", "PiB", "EiB"][k]?.getD "")

def floatType : String := "dtype('float64')"

def textType (width : Nat) : String := "dtype('<U" ++ toString width ++ "')"

def wholeClass : String := "<class 'numpy.dtypes._PyLongDType'>"

def textClass : String := "<class 'numpy.dtypes.StrDType'>"

/-- Two names in the order in which they were given. -/
def ordered (first : Bool) (a b : String) : String × String := if first then (a, b) else (b, a)

def message : Failure → String
  | unsupportedOperands op l r =>
    "unsupported operand type(s) for " ++ op ++ ": " ++ named l.name ++ " and " ++ named r.name
  | notComparable op l r =>
    named op ++ " not supported between instances of " ++ named l.name ++ " and " ++ named r.name
  | cannotConcatenate l r =>
    "can only concatenate " ++ l.name ++ " (not \"" ++ r.name ++ "\") to " ++ l.name
  | cannotRepeat k => "can't multiply sequence by non-int of type " ++ named k.name
  | repeatTooLarge => "cannot fit 'int' into an index-sized integer"
  | repeatedTooLong => "repeated string is too long"
  | noMemory => ""
  | divisionByZero .float => "float division by zero"
  | divisionByZero _ => "division by zero"
  | quotientTooLarge => "integer division result too large for a float"
  | intTooLarge => "int too large to convert to float"
  | invalidInteger s => "invalid literal for int() with base 10: " ++ shownLiteral s
  | invalidFloat s => "could not convert string to float: " ++ Text.quoted s
  | numeralTooLong n =>
    "Exceeds the limit (" ++ toString digitLimit ++
      " digits) for integer string conversion: value has " ++ toString n ++
      " digits; use sys.set_int_max_str_digits() to increase the limit"
  | integerTextTooLong =>
    "Exceeds the limit (" ++ toString digitLimit ++
      " digits) for integer string conversion; use sys.set_int_max_str_digits() to increase the limit"
  | infinityToInteger => "cannot convert float infinity to integer"
  | nanToInteger => "cannot convert float NaN to integer"
  | notANumber k =>
    "int() argument must be a string, a bytes-like object or a real number, not " ++ named k.name
  | noAttribute owner name => named owner ++ " object has no attribute " ++ named name
  | notIterable k => named k.name ++ " object is not iterable"
  | noLength k => "object of type " ++ named k.name ++ " has no len()"
  | notSubscriptable k => named k.name ++ " object is not subscriptable"
  | textIndex k => "string indices must be integers, not " ++ named k
  | listIndex k => "list indices must be integers or slices, not " ++ k
  | outOfRange s => s.name ++ " index out of range"
  | missingKey key => key
  | unhashable k => "unhashable type: " ++ named k
  | unknownFormatCode => "Unknown format code 'f' for object of type 'str'"
  | unsupportedFormat k => "unsupported format string passed to " ++ k.name ++ ".__format__"
  | cannotJoin => "can only join an iterable"
  | notText i k =>
    "sequence item " ++ toString i ++ ": expected str instance, " ++ k.name ++ " found"
  | negativeSampleCount n => "Number of samples, " ++ toString n ++ ", must be non-negative."
  | negativeDimension => "negative dimensions are not allowed"
  | shapeMismatch s t =>
    "could not broadcast input array from shape " ++ lengths "," s ++ " into shape " ++
      lengths "," [t]
  | notAFloat k => "float() argument must be a string or a real number, not " ++ named k.name
  | nestedTooFar =>
    "setting an array element with a sequence. The requested array would exceed the maximum number of dimension of 1."
  | unevenLists shape =>
    "setting an array element with a sequence. The requested array has an inhomogeneous shape after " ++
      toString shape.length ++ " dimensions. The detected shape was " ++ lengths ", " shape ++
      " + inhomogeneous part."
  | shapesDiffer shapes =>
    "operands could not be broadcast together with shapes " ++
      String.join (shapes.map fun s => lengths "," s ++ " ")
  | resultShape target result =>
    "non-broadcastable output operand with shape " ++ lengths "," target ++
      " doesn't match the broadcast shape " ++ lengths "," result
  | textOperand op width first =>
    let (a, b) := ordered first (textType width) floatType
    "ufunc " ++ named op ++ " did not contain a loop with signature matching types (" ++ a ++
      ", " ++ b ++ ") -> None"
  | textEnd first =>
    let (a, b) := ordered first textClass wholeClass
    "The DType " ++ a ++ " could not be promoted by " ++ b ++
      ". This means that no common DType exists for the given inputs. For example they cannot be stored in a single array unless the dtype is `object`. The full list of DTypes is: (" ++
      a ++ ", " ++ b ++ ")"
  | wideEnd i =>
    "Cannot cast ufunc 'subtract' input " ++ toString i ++ " from dtype('O') to " ++ floatType ++
      " with casting rule 'same_kind'"
  | resultNotNumbers op =>
    "Cannot cast ufunc " ++ named op ++ " output from dtype('O') to " ++ floatType ++
      " with casting rule 'same_kind'"
  | oversized measure => "Maximum allowed " ++ measure ++ " exceeded"
  | arrayTooBig =>
    "array is too big; `arr.size * arr.dtype.itemsize` is larger than the maximum possible size."
  | outOfMemory n =>
    "Unable to allocate " ++ memoryText n ++ " for an array with shape " ++ lengths "," [n] ++
      " and data type float64"
  | sleepNotANumber => "Invalid value NaN (not a number)"
  | sleepOutOfRange => "timestamp out of range for platform time_t"
  | sleepTooLong => "timestamp too large to convert to C _PyTime_t"
  | sleepNegative => "sleep length must be non-negative"
  | sleepNotInteger k => named k.name ++ " object cannot be interpreted as an integer"
  | device reason => reason
  | endOfInput => "EOF when reading a line"
  | isDirectory path => "[Errno 21] Is a directory: " ++ Text.quoted path
  | missingFile path => "[Errno 2] No such file or directory: " ++ Text.quoted path
  | undecodable b i j reason =>
    (if i = j then "'utf-8' codec can't decode byte " ++ byteText b ++ " in position " ++ toString i
      else "'utf-8' codec can't decode bytes in position " ++ toString i ++ "-" ++ toString j) ++
      ": " ++ reason
  | nestedTooDeep => "maximum recursion depth exceeded"

end Failure
end TuneScript
