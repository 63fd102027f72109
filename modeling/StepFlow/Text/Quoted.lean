import StepFlow.Text.Code
import StepFlow.Text.Digit
import StepFlow.Text.Printable

/-!
Quoted text as logs show it. The quote is single unless the text holds a single quote and no
double one. Characters without a visible form are written as escapes of two, four or eight
hexadecimal digits.
-/
namespace StepFlow.Text

/-- One code between the quotes. -/
def quotedCode (quote : Char) (code : Nat) : List Char :=
  if code = quote.toNat then ['\\', quote]
  else if code = 0x5C then ['\\', '\\']
  else if code = 9 then ['\\', 't']
  else if code = 10 then ['\\', 'n']
  else if code = 13 then ['\\', 'r']
  else if isPrintable code then ofCode code
  else if code < 0x100 then '\\' :: 'x' :: hexDigits 2 code
  else if code < 0x10000 then '\\' :: 'u' :: hexDigits 4 code
  else '\\' :: 'U' :: hexDigits 8 code

/-- A text with quotes around it. -/
def quoted (s : String) : String :=
  let quote := if s.toList.contains '\'' && !s.toList.contains '"' then '"' else '\''
  String.ofList (quote :: (codes s).flatMap (quotedCode quote) ++ [quote])

end StepFlow.Text
