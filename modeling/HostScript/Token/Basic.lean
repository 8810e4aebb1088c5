namespace HostScript

namespace Token

inductive Kind where
  | keyword
  | identifier
  | operator
  | nullLiteral
  | numLiteral
  | stringLiteral
  | trueLiteral
  | falseLiteral
  | openBracket
  | closedBracket
  | endLine
  | colon
  | comment
  deriving DecidableEq, Repr

def Kind.name : Kind → String
  | .keyword => "Keyword"
  | .identifier => "Identifier"
  | .operator => "Operator"
  | .nullLiteral => "NullLiteral"
  | .numLiteral => "NumLiteral"
  | .stringLiteral => "StringLiteral"
  | .trueLiteral => "TrueLiteral"
  | .falseLiteral => "FalseLiteral"
  | .openBracket => "OpenBracket"
  | .closedBracket => "ClosedBracket"
  | .endLine => "EndLine"
  | .colon => "Colon"
  | .comment => "Comment"

-- How messages speak of a kind.
def Kind.text : Kind → String
  | .keyword => "keyword"
  | .identifier => "identifier"
  | .operator => "operator"
  | .nullLiteral => "null"
  | .numLiteral => "number"
  | .stringLiteral => "string"
  | .trueLiteral => "true"
  | .falseLiteral => "false"
  | .openBracket => "'['"
  | .closedBracket => "']'"
  | .endLine => "end of line"
  | .colon => "':'"
  | .comment => "comment"

-- Whether a token of this kind can end an operand. A minus behind one is an operator, not a sign.
def Kind.endsOperand : Kind → Bool
  | .identifier | .numLiteral | .stringLiteral | .nullLiteral | .trueLiteral | .falseLiteral
  | .closedBracket => true
  | _ => false

end Token

-- A piece of source text. The lexeme is in lower case, except for comments, which stay as they are,
-- and strings, which hold their contents without quotes and escapes. The offset counts bytes.
structure Token where
  lexeme : String
  kind : Token.Kind
  offset : Nat
  deriving DecidableEq, Repr

namespace Token

def isKeyword (t : Token) (word : String) : Bool :=
  t.kind = .keyword && t.lexeme = word

def isOperator (t : Token) (op : String) : Bool :=
  t.kind = .operator && t.lexeme = op

-- How messages speak of a token.
def describe (t : Token) : String :=
  match t.kind with
  | .endLine => "end of line"
  | .stringLiteral => s!"string \"{t.lexeme}\""
  | _ => s!"'{t.lexeme}'"

def keywords : List String :=
  ["using", "in", "var", "if", "elseif", "else", "while", "for", "foreach", "loop", "do", "end",
   "break", "continue", "return", "exit", "function", "new"]

def operators : List String :=
  ["+", "-", "*", "/", "%", "=", "==", "!=", "<", "<=", ">", ">=", "+=", "-=", "*=", "/=", "%=",
   "++", "--", "!", "&&", "||", "and", "or", "not"]

-- Characters that run together into one operator.
def isOperatorChar (c : Char) : Bool :=
  "+-*/%=!<>&|".toList.contains c

end Token

end HostScript
