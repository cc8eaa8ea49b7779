import Numlet.Token.Scan
import Numlet.Tree.ReadExpr

/-!
Reading statements and whole programs. Like those of expressions, the forms of statements are given the
reading of the statements inside them, and `stmt` ties them together.
-/
namespace Numlet.Reading

/-- A type after the mark of the given kind, if the mark is there. -/
def typeAfter (mark : Kind) : Reading (Option NumType) := do
  if ← passed mark then return some (← numType) else return none

/-- The span from a token to the one just passed. -/
def spanFrom (start : Token) : Reading Span := return ⟨start.span.start, ← lastEnd⟩

def declaration (g : Grammar) : Reading Stmt := do
  let start ← take
  let name ← expectOr .identifier "expected identifier during variable declaration"
  let declared ← typeAfter .colon
  let value ← if ← passed .assignment then some <$> expr g .weakest else pure none
  let _ ← expectOr .semicolon "expected `=` or `;` after variable name"
  return .declare name.value declared value (← spanFrom start)

def branch (g : Grammar) (stmt : Reading Stmt) : Reading Stmt := do
  let start ← take
  let condition ← expr g .weakest
  let yes ← stmt
  let no ← if ← passed .elseWord then some <$> stmt else pure none
  return .branch condition yes no (← spanFrom start)

/-- Statements in braces, with the span of the braces. -/
def block (stmt : Reading Stmt) : Reading (List Stmt × Span) := do
  let start ← expectOr .openCurly "expected `\x7b`"
  let body ← many .closeCurly do
    if (← kind) = .eof then complain "unterminated block, expected `\x7d`"
    stmt
  let _ ← expect .closeCurly
  return (body, ← spanFrom start)

def parameter : Reading Parameter := do
  let name ← expectOr .identifier "expected parameter name"
  let declared ← typeAfter .colon
  return ⟨name.value, declared, ← spanFrom name⟩

def function (stmt : Reading Stmt) : Reading Stmt := do
  let start ← take
  let name ← expectOr .identifier "expected function name"
  let _ ← expect .openParen
  let parameters ← commaList parameter "expected `,` or `)` in parameter list"
  let _ ← expect .closeParen
  let result ← typeAfter .arrow
  let (body, bodySpan) ← block stmt
  return .function name.value parameters result body bodySpan (← spanFrom start)

def returning (g : Grammar) : Reading Stmt := do
  let start ← take
  let value ← unlessAt .semicolon (expr g .weakest)
  let _ ← expect .semicolon
  return .returnValue value (← spanFrom start)

def whileLoop (g : Grammar) (stmt : Reading Stmt) : Reading Stmt := do
  let start ← take
  let condition ← expr g .weakest
  let body ← stmt
  return .whileLoop condition body (← spanFrom start)

/-- An expression and the semicolon after it. -/
def expression (g : Grammar) : Reading Stmt := do
  let value ← expr g .weakest
  let _ ← expect .semicolon
  return .ofExpr value

/-- The first part of a loop's header, with its semicolon. -/
def loopStart (g : Grammar) : Reading (Option Stmt) := do
  match ← kind with
  | .semicolon =>
    let _ ← take
    return none
  | .letWord => some <$> declaration g
  | _ => some <$> expression g

def forLoop (g : Grammar) (stmt : Reading Stmt) : Reading Stmt := do
  let start ← take
  let _ ← expect .openParen
  let first ← loopStart g
  let condition ← unlessAt .semicolon (expr g .weakest)
  let _ ← expect .semicolon
  let step ← unlessAt .closeParen (expr g .weakest)
  let _ ← expect .closeParen
  let body ← stmt
  return .forLoop first condition step body (← spanFrom start)

def breaking : Reading Stmt := do
  let start ← take
  let _ ← expect .semicolon
  return .breakLoop (← spanFrom start)

def continuing : Reading Stmt := do
  let start ← take
  let _ ← expect .semicolon
  return .continueLoop (← spanFrom start)

def printing (g : Grammar) : Reading Stmt := do
  let start ← take
  let value ← expr g .weakest
  let _ ← expect .semicolon
  return .print value (← spanFrom start)

/-- A statement, given the reading of the statements inside it. -/
def stmtStep (g : Grammar) (stmt : Reading Stmt) : Reading Stmt := do
  match g.form? (← kind) with
  | none => expression g
  | some .declaration => declaration g
  | some .branch => branch g stmt
  | some .block => do
    let (body, span) ← block stmt
    return .block body span
  | some .function => function stmt
  | some .returning => returning g
  | some .whileLoop => whileLoop g stmt
  | some .forLoop => forLoop g stmt
  | some .breaking => breaking
  | some .continuing => continuing
  | some .printing => printing g

def stmt (g : Grammar) (c : Cursor) : EStateM.Result Diagnostic Cursor Stmt :=
  stmtStep g (fun c' => if c'.remaining < c.remaining then stmt g c' else refuse c') c
termination_by c.remaining

end Numlet.Reading

namespace Numlet

def Stmt.function? : Stmt → Option Function
  | .function name parameters result body bodySpan span =>
    some ⟨name, parameters, result, body, bodySpan, span⟩
  | _ => none

/-- Function definitions apart from the other statements, each in source order. -/
def Program.ofStmts (stmts : List Stmt) (bodySpan : Span) : Program where
  functions := stmts.filterMap Stmt.function?
  body := stmts.filter (·.function?.isNone)
  bodySpan := bodySpan

/-- All statements up to the end mark. -/
def Reading.program (g : Grammar) : Reading Program := do
  let stmts ← many .eof (stmt g)
  let c ← get
  return .ofStmts stmts ⟨⟨0, c.file⟩, c.position⟩

/-- The program that a list of tokens spells. -/
def Program.ofTokens (file : String) (tokens : List Token) :
    EStateM.Result Diagnostic Cursor Program :=
  Reading.program .standard (.ofTokens file tokens)

/-- The program that a source spells. -/
def Program.ofSource (source file : String) : Except Diagnostic Program :=
  match tokenize source file with
  | .error d => .error d
  | .ok tokens =>
    match Program.ofTokens file tokens with
    | .error d _ => .error d
    | .ok program _ => .ok program

end Numlet
