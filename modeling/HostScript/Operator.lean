namespace HostScript

inductive Arith where
  | add
  | sub
  | mul
  | div
  | mod
  deriving DecidableEq, Repr

def Arith.symbol : Arith → String
  | .add => "+"
  | .sub => "-"
  | .mul => "*"
  | .div => "/"
  | .mod => "%"

-- Comparisons by size.
inductive Order where
  | lt
  | le
  | gt
  | ge
  deriving DecidableEq, Repr

def Order.symbol : Order → String
  | .lt => "<"
  | .le => "<="
  | .gt => ">"
  | .ge => ">="

inductive BinaryOp where
  | arith (op : Arith)
  | order (op : Order)
  | eq
  | ne
  | and
  | or
  deriving DecidableEq, Repr

namespace BinaryOp

-- The binary operator a lexeme stands for. The logical ones have two spellings.
def ofLexeme? (lexeme : String) : Option BinaryOp :=
  if lexeme = "+" then some (.arith .add)
  else if lexeme = "-" then some (.arith .sub)
  else if lexeme = "*" then some (.arith .mul)
  else if lexeme = "/" then some (.arith .div)
  else if lexeme = "%" then some (.arith .mod)
  else if lexeme = "==" then some .eq
  else if lexeme = "!=" then some .ne
  else if lexeme = "<" then some (.order .lt)
  else if lexeme = "<=" then some (.order .le)
  else if lexeme = ">" then some (.order .gt)
  else if lexeme = ">=" then some (.order .ge)
  else if lexeme = "and" || lexeme = "&&" then some .and
  else if lexeme = "or" || lexeme = "||" then some .or
  else none

def symbol : BinaryOp → String
  | .arith op => op.symbol
  | .order op => op.symbol
  | .eq => "=="
  | .ne => "!="
  | .and => "and"
  | .or => "or"

end BinaryOp

inductive UnaryOp where
  | neg
  | not
  deriving DecidableEq, Repr

def UnaryOp.symbol : UnaryOp → String
  | .neg => "-"
  | .not => "!"

end HostScript
