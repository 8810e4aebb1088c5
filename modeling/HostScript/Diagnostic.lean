import HostScript.Ty

namespace HostScript

-- The part of the compiler a diagnostic comes from.
inductive Stage where
  | tokenizer
  | parser
  | semantic
  | codeGen
  deriving DecidableEq, Repr

def Stage.name : Stage → String
  | .tokenizer => "Tokenizer"
  | .parser => "Parser"
  | .semantic => "Semantic"
  | .codeGen => "CodeGen"

inductive Severity where
  | error
  | warning
  deriving DecidableEq, Repr

def Severity.name : Severity → String
  | .error => "Error"
  | .warning => "Warning"

namespace Diagnostic

-- The numbered kinds of diagnostics. Each stage has a hundred of its own, and numbers that end in
-- 90 are kept for warnings.
inductive Code where
  | invalidEscape
  | unterminatedString
  | invalidIdentifier
  | unterminatedComment
  | invalidNumber
  | tokenizerWarning
  | unexpectedToken
  | unexpectedEnd
  | expectedExpression
  | expectedIdentifier
  | expectedEndLine
  | invalidAssignment
  | invalidStatement
  | parserWarning
  | useBeforeDeclaration
  | invalidOperands
  | ambiguousMatch
  | invalidMember
  | invalidType
  | argumentCount
  | argumentType
  | misplacedDeclaration
  | breakOutsideLoop
  | continueOutsideLoop
  | functionsNotSupported
  | castNotSupported
  | duplicateInVar
  | notAssignable
  | notIterable
  | semanticWarning
  | unsupportedConstruct
  | tooManyLocals
  | tooManyStrings
  | unresolvedLabel
  | jumpOutOfRange
  | codeGenWarning
  deriving DecidableEq, Repr

namespace Code

def number : Code → Nat
  | .invalidEscape => 101
  | .unterminatedString => 102
  | .invalidIdentifier => 103
  | .unterminatedComment => 104
  | .invalidNumber => 105
  | .tokenizerWarning => 190
  | .unexpectedToken => 201
  | .unexpectedEnd => 202
  | .expectedExpression => 203
  | .expectedIdentifier => 204
  | .expectedEndLine => 205
  | .invalidAssignment => 206
  | .invalidStatement => 207
  | .parserWarning => 290
  | .useBeforeDeclaration => 301
  | .invalidOperands => 302
  | .ambiguousMatch => 303
  | .invalidMember => 304
  | .invalidType => 305
  | .argumentCount => 306
  | .argumentType => 307
  | .misplacedDeclaration => 308
  | .breakOutsideLoop => 309
  | .continueOutsideLoop => 310
  | .functionsNotSupported => 311
  | .castNotSupported => 312
  | .duplicateInVar => 313
  | .notAssignable => 314
  | .notIterable => 315
  | .semanticWarning => 390
  | .unsupportedConstruct => 401
  | .tooManyLocals => 402
  | .tooManyStrings => 403
  | .unresolvedLabel => 404
  | .jumpOutOfRange => 405
  | .codeGenWarning => 490

-- All codes in the order of their numbers.
def all : List Code :=
  [.invalidEscape, .unterminatedString, .invalidIdentifier, .unterminatedComment, .invalidNumber,
   .tokenizerWarning, .unexpectedToken, .unexpectedEnd, .expectedExpression, .expectedIdentifier,
   .expectedEndLine, .invalidAssignment, .invalidStatement, .parserWarning, .useBeforeDeclaration,
   .invalidOperands, .ambiguousMatch, .invalidMember, .invalidType, .argumentCount, .argumentType,
   .misplacedDeclaration, .breakOutsideLoop, .continueOutsideLoop, .functionsNotSupported,
   .castNotSupported, .duplicateInVar, .notAssignable, .notIterable, .semanticWarning,
   .unsupportedConstruct, .tooManyLocals, .tooManyStrings, .unresolvedLabel, .jumpOutOfRange,
   .codeGenWarning]

def name : Code → String
  | .invalidEscape => "InvalidEscape"
  | .unterminatedString => "UnterminatedString"
  | .invalidIdentifier => "InvalidIdentifier"
  | .unterminatedComment => "UnterminatedComment"
  | .invalidNumber => "InvalidNumber"
  | .tokenizerWarning => "TokenizerWarning"
  | .unexpectedToken => "UnexpectedToken"
  | .unexpectedEnd => "UnexpectedEnd"
  | .expectedExpression => "ExpectedExpression"
  | .expectedIdentifier => "ExpectedIdentifier"
  | .expectedEndLine => "ExpectedEndLine"
  | .invalidAssignment => "InvalidAssignment"
  | .invalidStatement => "InvalidStatement"
  | .parserWarning => "ParserWarning"
  | .useBeforeDeclaration => "UseBeforeDeclaration"
  | .invalidOperands => "InvalidOperands"
  | .ambiguousMatch => "AmbiguousMatch"
  | .invalidMember => "InvalidMember"
  | .invalidType => "InvalidType"
  | .argumentCount => "ArgumentCount"
  | .argumentType => "ArgumentType"
  | .misplacedDeclaration => "MisplacedDeclaration"
  | .breakOutsideLoop => "BreakOutsideLoop"
  | .continueOutsideLoop => "ContinueOutsideLoop"
  | .functionsNotSupported => "FunctionsNotSupported"
  | .castNotSupported => "CastNotSupported"
  | .duplicateInVar => "DuplicateInVar"
  | .notAssignable => "NotAssignable"
  | .notIterable => "NotIterable"
  | .semanticWarning => "SemanticWarning"
  | .unsupportedConstruct => "UnsupportedConstruct"
  | .tooManyLocals => "TooManyLocals"
  | .tooManyStrings => "TooManyStrings"
  | .unresolvedLabel => "UnresolvedLabel"
  | .jumpOutOfRange => "JumpOutOfRange"
  | .codeGenWarning => "CodeGenWarning"

def ofName? (name : String) : Option Code :=
  all.find? (·.name = name)

def stage (c : Code) : Stage :=
  if c.number < 200 then .tokenizer
  else if c.number < 300 then .parser
  else if c.number < 400 then .semantic
  else .codeGen

def severity (c : Code) : Severity :=
  if c.number % 100 = 90 then .warning else .error

-- The heading shown above a message.
def header (c : Code) : String :=
  let who := match c.stage with
    | .tokenizer => "Tokenizer"
    | .parser => "Parser"
    | .semantic => "Semantic"
    | .codeGen => "Compiler"
  s!"{who} {c.severity.name}"

end Code

-- Everything that can be wrong with a script, stage by stage.
inductive Problem where
  | badEscape (c : Char)
  | openEscape
  | openString
  | openComment
  | unknownOperator (lexeme : String)
  | badCharacter (c : Char) (word : String)
  | badNumber (lexeme : String)
  | unexpected (expected found : String)
  | missing (expected : String)
  | openBlock
  | notAnExpression (found : String)
  | notAName (expected found : String)
  | lineGoesOn (found : String)
  | noAssignment (name : String)
  | notAnAssignment (lexeme : String)
  | assignsCall
  | strayKeyword (word : String)
  | notAVarStatement
  | notAStatement
  | constructsNothing
  | lateUsing
  | unknownNamespace (ns : String)
  | lateInput
  | duplicateInput (name : String)
  | unknownType (name : String)
  | ambiguousType (name : String)
  | buriedHeader
  | assignsNothing (name : String)
  | undeclared (name : String)
  | badOperands (symbol : String) (lhs rhs : Ty)
  | badOperand (symbol : String) (operand : Ty)
  | badCount (found : Ty)
  | badCondition (found : Ty)
  | strayBreak
  | strayContinue
  | returnsNothing
  | declaresFunction (name : String)
  | notIterable (typeName : String)
  | assignsVariable (name : String)
  | variableAlone (name : String)
  | assignsNonMember
  | readOnly (name : String)
  | badPropertyValue (found : Ty) (name expected : String)
  | notAProperty (name : String)
  | argumentCount (name : String) (expected found : Nat)
  | badArgument (index : Nat) (name expected : String) (found : Ty)
  | noMembers (owner : Ty) (name : String)
  | unknownMember (name : String)
  | unknownMemberOn (name owner : String)
  | ambiguousMember (name : String)
  | notAMethod (name : String)
  | unreadable (name : String)
  | notConstructible (name : String)
  | noConstructor (name : String) (count : Nat)
  | noFittingConstructor (name : String)
  | ambiguousConstructor (name : String)
  | castsValue (name : String)
  | uncheckableType (typeName : String)
  | breakWithoutLoop
  | continueWithoutLoop
  | compilesFunction (name : String)
  | compilesNonMember
  | compilesNonProperty (name : String)
  | unresolvedIteration
  | tooManyArguments
  | unresolvedMember (name : String)
  | unresolvedConstructor (name : String)
  | compilesCast (name : String)
  | inputWithoutSlot (name : String)
  | tooManyLocals (name : String)
  | tooManyStrings
  | unboundLabel (label : Nat)
  | farJump (target : Nat)
  | largeLoop
  deriving DecidableEq, Repr

namespace Problem

def code : Problem → Code
  | .badEscape _ | .openEscape => .invalidEscape
  | .openString => .unterminatedString
  | .unknownOperator _ | .badCharacter _ _ => .invalidIdentifier
  | .openComment => .unterminatedComment
  | .badNumber _ => .invalidNumber
  | .unexpected _ _ => .unexpectedToken
  | .missing _ | .openBlock => .unexpectedEnd
  | .notAnExpression _ => .expectedExpression
  | .notAName _ _ => .expectedIdentifier
  | .lineGoesOn _ => .expectedEndLine
  | .noAssignment _ | .notAnAssignment _ | .assignsCall => .invalidAssignment
  | .strayKeyword _ | .notAVarStatement | .notAStatement | .constructsNothing | .variableAlone _ =>
    .invalidStatement
  | .undeclared _ => .useBeforeDeclaration
  | .badOperands _ _ _ | .badOperand _ _ => .invalidOperands
  | .ambiguousType _ | .ambiguousMember _ | .ambiguousConstructor _ => .ambiguousMatch
  | .unknownNamespace _ | .noMembers _ _ | .unknownMember _ | .unknownMemberOn _ _
  | .unreadable _ => .invalidMember
  | .unknownType _ | .assignsNothing _ | .badCount _ | .badCondition _ | .returnsNothing
  | .badPropertyValue _ _ _ | .notConstructible _ => .invalidType
  | .argumentCount _ _ _ | .notAMethod _ | .noConstructor _ _ => .argumentCount
  | .badArgument _ _ _ _ | .noFittingConstructor _ => .argumentType
  | .lateUsing | .lateInput | .buriedHeader => .misplacedDeclaration
  | .strayBreak => .breakOutsideLoop
  | .strayContinue => .continueOutsideLoop
  | .declaresFunction _ => .functionsNotSupported
  | .castsValue _ => .castNotSupported
  | .duplicateInput _ => .duplicateInVar
  | .assignsVariable _ | .assignsNonMember | .readOnly _ | .notAProperty _ => .notAssignable
  | .notIterable _ => .notIterable
  | .uncheckableType _ | .breakWithoutLoop | .continueWithoutLoop | .compilesFunction _
  | .compilesNonMember | .compilesNonProperty _ | .unresolvedIteration | .tooManyArguments
  | .unresolvedMember _ | .unresolvedConstructor _ | .compilesCast _ | .inputWithoutSlot _ =>
    .unsupportedConstruct
  | .tooManyLocals _ => .tooManyLocals
  | .tooManyStrings => .tooManyStrings
  | .unboundLabel _ => .unresolvedLabel
  | .farJump _ | .largeLoop => .jumpOutOfRange

def message : Problem → String
  | .badEscape c => s!"Invalid escape sequence '\\{c}'"
  | .openEscape => "Unterminated escape sequence"
  | .openString => "Unterminated string"
  | .openComment => "Unterminated block comment"
  | .unknownOperator lexeme => s!"Unknown operator '{lexeme}'"
  | .badCharacter c word => s!"Invalid character '{c}' in identifier '{word}'"
  | .badNumber lexeme => s!"Invalid number '{lexeme}'"
  | .unexpected expected found => s!"Expected {expected}, found {found}"
  | .missing expected => s!"Expected {expected}, found end of input"
  | .openBlock => "Expected 'end' before end of input"
  | .notAnExpression found => s!"Expected an expression, found {found}"
  | .notAName expected found => s!"Expected {expected}, found {found}"
  | .lineGoesOn found => s!"Expected end of line, found {found}"
  | .noAssignment name => s!"Expected an assignment to '{name}'"
  | .notAnAssignment lexeme => s!"'{lexeme}' is not an assignment operator"
  | .assignsCall => "Only properties can be assigned"
  | .strayKeyword word => s!"Unexpected keyword '{word}'"
  | .notAVarStatement => "Expected a 'var' statement"
  | .notAStatement => "Only calls and property assignments can be used as statements"
  | .constructsNothing => "A constructor cannot be used as a statement"
  | .lateUsing => "'using' must come before 'in' and all other statements"
  | .unknownNamespace ns => s!"Unknown namespace '{ns}'"
  | .lateInput => "'in' must come before all other statements"
  | .duplicateInput name => s!"Input variable '{name}' is already declared"
  | .unknownType name => s!"Unknown type '{name}'"
  | .ambiguousType name => s!"Type '{name}' matches more than one registered type"
  | .buriedHeader => "'using' and 'in' are only allowed at the start of a script"
  | .assignsNothing name => s!"Cannot assign an expression without a value to '{name}'"
  | .undeclared name => s!"'{name}' is used before it is declared"
  | .badOperands symbol lhs rhs =>
    s!"Operator '{symbol}' cannot be applied to {lhs.text} and {rhs.text}"
  | .badOperand symbol operand => s!"Operator '{symbol}' cannot be applied to {operand.text}"
  | .badCount found => s!"Loop count must be a number, found {found.text}"
  | .badCondition found => s!"Condition must be a bool, found {found.text}"
  | .strayBreak => "'break' can only be used inside a loop"
  | .strayContinue => "'continue' can only be used inside a loop"
  | .returnsNothing => "Cannot return an expression without a value"
  | .declaresFunction name => s!"Function declarations are not supported ('{name}')"
  | .notIterable typeName => s!"{typeName} cannot be used in 'foreach'"
  | .assignsVariable name => s!"Use 'var [{name}] = ...' to assign a variable"
  | .variableAlone name => s!"Variable '{name}' cannot be used as a statement"
  | .assignsNonMember => "Only properties can be assigned"
  | .readOnly name => s!"Property '{name}' is read-only"
  | .badPropertyValue found name expected =>
    s!"Cannot assign {found.text} to property '{name}' of type {expected}"
  | .notAProperty name => s!"'{name}' is not an assignable property"
  | .argumentCount name expected found =>
    s!"'{name}' expects {expected} argument(s), found {found}"
  | .badArgument index name expected found =>
    s!"Argument {index} of '{name}' must be {expected}, found {found.text}"
  | .noMembers owner name => s!"Values of type {owner.text} have no member '{name}'"
  | .unknownMember name => s!"Unknown member '{name}'"
  | .unknownMemberOn name owner => s!"Unknown member '{name}' on {owner}"
  | .ambiguousMember name => s!"'{name}' matches more than one member"
  | .notAMethod name => s!"'{name}' is not a method and takes no arguments"
  | .unreadable name => s!"Property '{name}' cannot be read"
  | .notConstructible name => s!"'{name}' is not a host type and cannot be constructed"
  | .noConstructor name count => s!"'{name}' has no constructor taking {count} argument(s)"
  | .noFittingConstructor name => s!"No constructor of '{name}' accepts these arguments"
  | .ambiguousConstructor name => s!"More than one constructor of '{name}' matches"
  | .castsValue name => s!"Casts are not supported ('<{name}>')"
  | .uncheckableType typeName => s!"Type {typeName} cannot be checked at runtime"
  | .breakWithoutLoop => "'break' outside of loop"
  | .continueWithoutLoop => "'continue' outside of loop"
  | .compilesFunction name => s!"Function '{name}' cannot be compiled"
  | .compilesNonMember => "Only properties can be assigned"
  | .compilesNonProperty name => s!"'{name}' is not an assignable property"
  | .unresolvedIteration => "unresolved 'foreach' target"
  | .tooManyArguments => "too many arguments"
  | .unresolvedMember name => s!"member '{name}' was not resolved"
  | .unresolvedConstructor name => s!"constructor of '{name}' was not resolved"
  | .compilesCast name => s!"Cast to '{name}' cannot be compiled"
  | .inputWithoutSlot name => s!"input variable '{name}' has no slot"
  | .tooManyLocals name => s!"Too many variables; '{name}' needs a slot beyond 256"
  | .tooManyStrings => "string pool exceeds 65536 entries"
  | .unboundLabel label => s!"label {label} was never bound"
  | .farJump target => s!"jump target {target} out of range"
  | .largeLoop => "loop body is too large"

end Problem

end Diagnostic

-- A problem found while compiling, with the byte offset in the source where it was found.
structure Diagnostic where
  problem : Diagnostic.Problem
  offset : Nat
  deriving DecidableEq, Repr

namespace Diagnostic

def code (d : Diagnostic) : Code :=
  d.problem.code

def message (d : Diagnostic) : String :=
  d.problem.message

-- A heading and a message as one line.
def line (header message : String) : String :=
  s!"{header}: {message}"

-- Walks on from the byte offset `here`, which has the position `(line, col)`, until `offset` is
-- reached or passed.
def lineColFrom (offset here line col : Nat) : List Char → Nat × Nat
  | [] => (line, col)
  | c :: rest =>
    if offset ≤ here then (line, col)
    else if c = '\n' then lineColFrom offset (here + c.utf8Size) (line + 1) 1 rest
    else lineColFrom offset (here + c.utf8Size) line (col + 1) rest

-- The line and column of a byte offset, both counted from one and the column in characters. An
-- offset past the end stands for the end.
def lineCol (source : String) (offset : Nat) : Nat × Nat :=
  lineColFrom offset 0 1 1 source.toList

end Diagnostic

end HostScript
