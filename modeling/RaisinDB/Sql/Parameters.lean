import Mathlib.Data.List.TakeWhile
import RaisinDB.Foundation.Json
import RaisinDB.Sql.JsonOps
import RaisinDB.Sql.SqlLexemes

/-!
# Parameter substitution

The `$n` placeholders of an SQL text are replaced by the texts of values.  The scan reads
characters, not lexemes, so what it takes for a placeholder may lie inside a string, a quoted name
or a comment, and a value is written directly between its neighbours.
-/

namespace RaisinDB.Sql

open List RaisinDB.Foundation

/-! ## Values -/

/-- The digits of an exponent, behind its letter and sign. -/
def isExponent : List Char → Bool
  | '+' :: digits | '-' :: digits => isDigits digits
  | digits => isDigits digits

/-- What may follow the digits of a JSON number: an exponent. -/
def isExponentPart : List Char → Bool
  | [] => true
  | char :: rest => (char == 'e' || char == 'E') && isExponent rest

/-- What may follow the integer digits of a JSON number: a fraction and an exponent. -/
def isNumberTail : List Char → Bool
  | '.' :: rest =>
      !(rest.takeWhile Char.isDigit).isEmpty && isExponentPart (rest.dropWhile Char.isDigit)
  | rest => isExponentPart rest

def isUnsignedNumber (text : List Char) : Bool :=
  !(text.takeWhile Char.isDigit).isEmpty && isNumberTail (text.dropWhile Char.isDigit)

/-- The text of a JSON number. -/
def isJsonNumber : List Char → Bool
  | '-' :: digits => isUnsignedNumber digits
  | digits => isUnsignedNumber digits

/-- A parameter: a number is written as JSON writes numbers. -/
structure Parameter where
  value : Value
  written : ∀ text, value = .number text → isJsonNumber text.toList = true

/-- A text between single quotes, each of its own quotes doubled. -/
def quoteText (text : List Char) : List Char :=
  '\'' :: text.flatMap (fun char => if char = '\'' then ['\'', '\''] else [char]) ++ ['\'']

def formatParamValue : Value → List Char
  | .null => "NULL".toList
  | .bool flag => if flag then "true".toList else "false".toList
  | .number text => text.toList
  | .string text => quoteText text.toList
  | value => quoteText value.chars

/-! ## The scan -/

inductive ParamError where
  | validation (message : String)
  deriving DecidableEq

/-- The text of the value that a placeholder of these digits names. -/
def placeholderText (params : List Parameter) (formatValue : Value → List Char)
    (digits : List Char) : Except ParamError (List Char) :=
  if 2 ^ 64 ≤ digitsValue digits then
    .error (.validation ("Invalid parameter index: $" ++ String.ofList digits))
  else if digitsValue digits = 0 then
    .error (.validation "Parameter indices must start at $1")
  else
    match params[digitsValue digits - 1]? with
    | some param => .ok (formatValue param.value)
    | none =>
        .error (.validation ("Parameter $" ++ toString (digitsValue digits) ++
          " not provided (only " ++ toString params.length ++ " parameters given)"))

def substituteParamsWith (params : List Parameter) (formatValue : Value → List Char) :
    List Char → Except ParamError (List Char)
  | [] => .ok []
  | char :: rest =>
      if char = '$' ∧ rest.takeWhile Char.isDigit ≠ [] then do
        let text ← placeholderText params formatValue (rest.takeWhile Char.isDigit)
        let others ← substituteParamsWith params formatValue (rest.dropWhile Char.isDigit)
        pure (text ++ others)
      else do
        let others ← substituteParamsWith params formatValue rest
        pure (char :: others)
  termination_by sql => sql.length
  decreasing_by
    · exact Nat.lt_succ_of_le (length_dropWhile_le Char.isDigit rest)
    · exact Nat.lt_succ_self _

def substituteParams (sql : List Char) (params : List Parameter) :
    Except ParamError (List Char) :=
  substituteParamsWith params formatParamValue sql

/-- The `$n` that the scan finds. -/
def scannedPlaceholders : List Char → Nat
  | [] => 0
  | char :: rest =>
      (if char = '$' ∧ rest.head?.any Char.isDigit then 1 else 0) + scannedPlaceholders rest

end RaisinDB.Sql
