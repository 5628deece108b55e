/-
# `tryJSONPParse` and the script fast path of `Interpreter::execute`

Before `Interpreter::execute` compiles a program it asks a `LiteralParser` in `JSONP` mode whether
the program is a sequence of JSONP statements.  If so, the assignments and calls that the parser
lists are performed directly and the program is never compiled.

The statement loop of `tryJSONPParse` decides on the type `next` RETURNS while it reads a path, and
on the type STORED in the current token after a value.  Both are kept as the source has them.

A path entry of the source has a type, a name and an index; which of the two is meaningful follows
from the type, and the other one is stale and never read.  Here an entry carries the meaningful one.
The local `entry` of the source is always the last entry of `path`.

The host that `execute` acts on (global object, property access, calls, exceptions) is a parameter.
-/
import JavaScriptCore.Json.Parser

namespace JavaScriptCore.Json

/-- The words of `Keywords.table`. -/
def keywords : List String :=
  ["null", "true", "false",
   "break", "case", "catch", "const", "default", "finally", "for", "instanceof", "new", "var",
   "continue", "function", "return", "void", "delete", "if", "this", "do", "while", "else", "in",
   "switch", "throw", "try", "typeof", "with", "debugger",
   "class", "enum", "export", "extends", "import", "super",
   "implements", "interface", "let", "package", "private", "protected", "public", "static",
   "yield"]

/-- The code units of an ASCII word. -/
def codeUnits (s : String) : List Nat := s.toList.map Char.toNat

/-- `Keywords::isKeyword`. -/
def isKeyword (ident : List Nat) : Bool := keywords.any fun k => codeUnits k == ident

/-- `propertyNames->varKeyword`. -/
def varKeyword : List Nat := codeUnits "var"

inductive JSONPPathEntry where
  | Declare (pathEntryName : List Nat)
  | Dot (pathEntryName : List Nat)
  | Lookup (pathIndex : Nat)
  | Call (pathEntryName : List Nat)
  deriving DecidableEq, Repr

/-- `JSONPData`; the value is empty while it is being parsed. -/
structure JSONPData (ν : Type) where
  path : List JSONPPathEntry
  value : Option (JSValue ν)

variable {ν : Type}

/-! ## 1. `tryJSONPParse` -/

section TryJSONPParse

variable (ops : TokenOps ν)

/-- `m_lexer.next()` in `JSONP` mode. -/
def LiteralParser.next (p : LiteralParser ν) : TokenType × LiteralParser ν :=
  ((p.lexer.next ops .JSONP).1, p.advance ops .JSONP)

/-- `path.last().m_type = JSONPPathEntryTypeCall`, if it was a `Dot`. -/
def callLast (path : List JSONPPathEntry) : Option (List JSONPPathEntry) :=
  match path.getLast? with
  | some (.Dot name) => some (path.dropLast ++ [.Call name])
  | _ => none

/-- The loop `while (tokenType != TokAssign)`: the path, and the parser at the token that ended
the loop.  `none` stands for `return false`.  Every turn consumes a token, so that `fuel` can be
taken from the length of the text. -/
def readPath (needsFullSourceInfo : Bool) :
    Nat → TokenType → List JSONPPathEntry → LiteralParser ν →
      Option (List JSONPPathEntry × LiteralParser ν)
  | 0, _, _, _ => none
  | fuel + 1, tokenType, path, p =>
    match tokenType with
    | .TokAssign => some (path, p)
    | .TokLBracket =>
      let (type, p) := p.next ops
      if type ≠ .TokNumber then none
      else
        match p.lexer.currentToken.number.bind ops.toIndex with
        | none => none
        | some index =>
          let (type, p) := p.next ops
          if type ≠ .TokRBracket then none
          else
            let (type, p) := p.next ops
            readPath needsFullSourceInfo fuel type (path ++ [.Lookup index]) p
    | .TokDot =>
      let (type, p) := p.next ops
      if type ≠ .TokIdentifier then none
      else
        let name := p.lexer.currentToken.text
        let (type, p) := p.next ops
        readPath needsFullSourceInfo fuel type (path ++ [.Dot name]) p
    | .TokLParen =>
      if needsFullSourceInfo then none
      else (callLast path).map fun path => (path, p)
    | _ => none

/-- The part of a statement before its JSON value; the current token is its first identifier. -/
def readTarget (needsFullSourceInfo : Bool) (p : LiteralParser ν) :
    Option (List JSONPPathEntry × LiteralParser ν) :=
  let name := p.lexer.currentToken.text
  if name = varKeyword then
    let (type, p) := p.next ops
    if type ≠ .TokIdentifier then none
    else
      let name := p.lexer.currentToken.text
      if isKeyword name then none
      else
        let (type, p) := p.next ops
        if type ≠ .TokAssign then none else some ([.Declare name], p)
  else if isKeyword name then none
  else
    let (type, p) := p.next ops
    readPath ops needsFullSourceInfo (p.lexer.ptr.length + 2) type [.Dot name] p

def isCall (path : List JSONPPathEntry) : Bool :=
  match path.getLast? with
  | some (.Call _) => true
  | _ => false

/-- The `do … while` loop over the statements. -/
def jsonpLoop (needsFullSourceInfo : Bool) :
    Nat → List (JSONPData ν) → LiteralParser ν → Bool × List (JSONPData ν)
  | 0, results, _ => (false, results)
  | fuel + 1, results, p =>
    match readTarget ops needsFullSourceInfo p with
    | none => (false, results)
    | some (path, p) =>
      match (p.advance ops .JSONP).parse ops .JSONP .StartParseExpression with
      | (none, _) => (false, results ++ [⟨[], none⟩])
      | (some value, p) =>
        let results := results ++ [⟨path, some value⟩]
        if isCall path ∧ p.tokenType ≠ .TokRParen then (false, results)
        else
          let p := if isCall path then p.advance ops .JSONP else p
          if p.tokenType ≠ .TokSemi then (p.tokenType == .TokEnd, results)
          else
            let p := p.advance ops .JSONP
            if p.tokenType = .TokIdentifier then jsonpLoop needsFullSourceInfo fuel results p
            else (p.tokenType == .TokEnd, results)

/-- `LiteralParser(exec, text, length, JSONP).tryJSONPParse(results, needsFullSourceInfo)`: the
returned flag and the contents of `results`. -/
def tryJSONPParse (needsFullSourceInfo : Bool) (text : List Nat) : Bool × List (JSONPData ν) :=
  let (type, p) := (LiteralParser.ofText text).next ops
  if type ≠ .TokIdentifier then (false, [])
  else jsonpLoop ops needsFullSourceInfo (text.length + 1) [] p

end TryJSONPParse

/-! ## 2. `Interpreter::execute` -/

/-- What `execute` needs of the world: `V` are the run-time values and `σ` the states of the
heap.  An operation that can throw returns `none` for the value when it does. -/
structure Host (ν V σ : Type) where
  undefined : V
  /-- the run-time value of a parsed literal -/
  literal : JSValue ν → V
  globalObject : V
  supportsRichSourceInfo : Bool
  addVar : List Nat → σ → σ
  putGlobal : List Nat → V → σ → σ
  /-- `getPropertySlot` on the global object, and the value of the slot -/
  getGlobal : List Nat → σ → Option (Option V × σ)
  get : V → List Nat → σ → Option V × σ
  getIndex : V → Nat → σ → Option V × σ
  put : V → List Nat → V → σ → Option Unit × σ
  putByIndex : V → Nat → V → σ → Option Unit × σ
  /-- `getCallData` and `call`: function, this value, argument -/
  call : V → V → V → σ → Option V × σ
  throwUndefinedVariable : List Nat → σ → σ
  /-- `failedJSONP`: compile the program and run it -/
  compileAndRun : List Nat → σ → V × σ

variable {V σ : Type}

/-- Where the JSONP code of `execute` ends. -/
inductive Completion (V σ : Type) where
  | value (v : V) (s : σ)
  /-- an exception is pending -/
  | exception (s : σ)
  /-- `goto failedJSONP` -/
  | failedJSONP (s : σ)

/-- The loop over the path entries before the last one: the object they lead to. -/
def resolveBase (h : Host ν V σ) (entry : Nat) :
    Nat → List JSONPPathEntry → V → σ → (V × σ) ⊕ Completion V σ
  | _, [], base, s => .inl (base, s)
  | i, .Dot name :: rest, base, s =>
    if i = 0 then
      match h.getGlobal name s with
      | none =>
        if entry ≠ 0 then .inr (.exception (h.throwUndefinedVariable name s))
        else .inr (.failedJSONP s)
      | some (none, s) => .inr (.exception s)
      | some (some base, s) => resolveBase h entry (i + 1) rest base s
    else
      match h.get base name s with
      | (none, s) => .inr (.exception s)
      | (some base, s) => resolveBase h entry (i + 1) rest base s
  | i, .Lookup index :: rest, base, s =>
    match h.getIndex base index s with
    | (none, s) => .inr (.exception s)
    | (some base, s) => resolveBase h entry (i + 1) rest base s
  -- RELEASE_ASSERT_NOT_REACHED: no other entry stands before the last one
  | _, _ :: _, _, s => .inr (.value h.undefined s)

/-- One listed statement. -/
def performEntry (h : Host ν V σ) (entry : Nat) (path : List JSONPPathEntry) (value : V) (s : σ) :
    Completion V σ :=
  match path with
  | [.Declare name] => .value h.undefined (h.putGlobal name value (h.addVar name s))
  | _ =>
    match resolveBase h entry 0 path.dropLast h.globalObject s with
    | .inr c => c
    | .inl (base, s) =>
      match path.getLast? with
      | some (.Call name) =>
        match h.get base name s with
        | (none, s) => .exception s
        | (some function, s) =>
          match h.call function (if path.length = 1 then h.undefined else base) value s with
          | (none, s) => .exception s
          | (some result, s) => .value result s
      | some (.Dot name) =>
        match h.put base name value s with
        | (none, s) => .exception s
        | (some _, s) => .value value s
      | some (.Lookup index) =>
        match h.putByIndex base index value s with
        | (none, s) => .exception s
        | (some _, s) => .value value s
      | _ => .value h.undefined s

/-- The loop over the listed statements, from number `entry` on. -/
def performAll (h : Host ν V σ) : Nat → List (JSONPData ν) → V → σ → Completion V σ
  | _, [], result, s => .value result s
  | entry, d :: rest, _, s =>
    match performEntry h entry d.path (d.value.elim h.undefined h.literal) s with
    | .value result s => performAll h (entry + 1) rest result s
    | c => c

/-- `Interpreter::execute(ProgramExecutable*, …)`, from the JSONP test on: the value and the
state it leaves. -/
def execute (ops : NumberOps ν) (h : Host ν V σ) (programSource : List Nat) (s : σ) : V × σ :=
  match tryJSONPParse ops.lexed h.supportsRichSourceInfo programSource with
  | (true, results) =>
    match performAll h 0 results h.undefined s with
    | .value v s => (v, s)
    | .exception s => (h.undefined, s)
    | .failedJSONP s => h.compileAndRun programSource s
  | (false, _) => h.compileAndRun programSource s

end JavaScriptCore.Json
