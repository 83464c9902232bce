/-
# Complaints about a query text

What can be wrong with the text of a query, apart from where.
-/

namespace DemoTape
set_option autoImplicit false

inductive Complaint where
  | noRoot
  | unexpected
  | noFieldName
  | openBracket
  | noBracketContent
  | noClosingBracket
  | noFilterParenthesis
  | noFilterSubject
  | noFilterField
  | noOperator
  | noLiteral
  | badNumber
  | noClosingParenthesis
  | openText
  | badEscape
  deriving DecidableEq, Repr

def Complaint.message : Complaint → String
  | .noRoot => "query must start with '$'"
  | .unexpected => "unexpected character"
  | .noFieldName => "expected field name"
  | .openBracket => "unterminated bracket"
  | .noBracketContent => "expected '*', quoted name or filter in brackets"
  | .noClosingBracket => "expected ']'"
  | .noFilterParenthesis => "expected '('"
  | .noFilterSubject => "predicate must start with '@'"
  | .noFilterField => "predicate needs a field after '@'"
  | .noOperator => "unrecognized operator"
  | .noLiteral => "invalid literal"
  | .badNumber => "invalid number"
  | .noClosingParenthesis => "expected ')'"
  | .openText => "unterminated string literal"
  | .badEscape => "invalid escape"

end DemoTape
