import Minibase.Lib.Split
import Minibase.Msh.Heap

/-!
# The parser of msh

`msh_parser.c`: an automaton that puts the words of the command it is in on the heap, each with a
zero at its end, and runs the command when the line is over. What is on the heap between `asep`
and `hptr` is a list of bytes here, and there is always room for more. The end of the process,
`fatal`, is an error, with the commands that have been run till then. What running a command does,
and what the value of a variable is, is up to a `Msh.Host`.
-/

namespace Minibase.Msh

/-- The rest of the shell: the value of a variable, the process id in decimal, the arguments of
the script, and what a command does. -/
structure Host (E : Type) where
  valueof : E → List UInt8 → Option Str
  pid : Str
  topargv : List Str
  run : E → List (List UInt8) → Except String E

/-- The states of the parser. -/
inductive St
  | NIL
  | SEP
  | ARG
  | NIBSL
  | SEBSL
  | ARBSL
  | VSIGN
  | VCONT
  | COMMT
  | DQUOT
  | DQBSL
  | DQVSG
  | DQVCN
  | SQUOT
  | SQBSL
  | TRAIL
deriving DecidableEq, Repr

/-- The commands that have been run, each with the line it was run on. -/
abbrev Log := List (ℕ × List (List UInt8))

/-- `struct sh`, as far as the parser goes: what is on the heap above `asep`, and where the name of
the variable that is being read starts in it. -/
structure Parser (E : Type) where
  state : St
  buf : List UInt8
  var : Option ℕ
  line : ℕ
  env : E
  log : Log

/-- The end of the process. -/
structure Fatal where
  msg : String
  log : Log

namespace Parser

variable {E : Type} (host : Host E) (p : Parser E)

/-- An error ends the shell, and the commands so far have been run. -/
def fatal {α : Type} (msg : String) : Except Fatal α := .error ⟨msg, p.log⟩

/-- The words in the buffer are a command, unless there are none. -/
def execute : Except Fatal (Parser E) :=
  let argv := (pieces 0 p.buf).1
  if argv = [] then .ok p
  else
    let log := p.log ++ [(p.line, argv)]
    match host.run p.env argv with
    | .error msg => .error ⟨msg, log⟩
    | .ok env => .ok { p with env := env, buf := [], log := log }

variable (c : UInt8)

def isspace : Bool := c = 32 || c = 9 || c = 10

def isalpha : Bool := (97 ≤ c && c ≤ 122) || (65 ≤ c && c ≤ 90)

def isnumer : Bool := 48 ≤ c && c ≤ 57

def isalnum : Bool := isalpha c || isnumer c

def pushChar : Parser E := { p with buf := p.buf ++ [c] }

/-- The character that a backslash makes of another. -/
def unescape : UInt8 := if c = 116 then 9 else if c = 110 then 10 else c

def pushEsc : Parser E := p.pushChar (unescape c)

def pushEnd : Parser E := p.pushChar 0

/-- The name of a variable begins. -/
def pushVar : Parser E := { p with var := some p.buf.length }.pushChar c

/-- The name at the end of the buffer becomes the value. -/
def substVar : Except Fatal (Parser E) :=
  match p.var with
  | none => p.fatal "internal var end w/o var"
  | some var =>
    match host.valueof p.env (p.buf.drop var) with
    | none => p.fatal "undefined variable"
    | some val => .ok { p with buf := p.buf.take var ++ val.chars }

/-- The value of a special variable. -/
def special : Option Str :=
  if c = 36 then some host.pid
  else if isnumer c then host.topargv[c.toNat - 48 + 1]?
  else none

/-- A variable of one character. -/
def substSpecial : Except Fatal (Parser E) :=
  match special host c with
  | none => p.fatal "undefined special variable"
  | some val => .ok { p with buf := p.buf ++ val.chars }

/-! ### State handlers -/

/-- Goes on in another state. -/
def goto (st : St) : Except Fatal (Parser E) := .ok { p with state := st }

/-- Nothing of a command has been read. -/
def parseNil : Except Fatal (Parser E) :=
  if c = 10 then p.goto .NIL
  else if isspace c then p.goto .NIL
  else if c = 35 then p.goto .COMMT
  else if c = 92 then p.goto .NIBSL
  else if c = 34 ∨ c = 39 then p.fatal "quoted command"
  else if c = 36 then p.fatal "indirect command"
  else (p.pushChar c).goto .ARG

/-- Between two words. -/
def parseSep : Except Fatal (Parser E) :=
  if c = 10 then do
    let p ← p.execute host
    p.goto .NIL
  else if c = 35 then do
    let p ← p.execute host
    p.goto .COMMT
  else if isspace c then p.goto .SEP
  else if c = 92 then p.goto .SEBSL
  else if c = 34 then p.goto .DQUOT
  else if c = 39 then p.goto .SQUOT
  else if c = 36 then p.goto .VSIGN
  else (p.pushChar c).goto .ARG

/-- In a word. -/
def parseArg : Except Fatal (Parser E) :=
  if c = 36 then p.goto .VSIGN
  else if c = 92 then p.goto .ARBSL
  else if c = 35 then do
    let p ← p.pushEnd.execute host
    p.goto .COMMT
  else if c = 10 then do
    let p ← p.pushEnd.execute host
    p.goto .NIL
  else if isspace c then p.pushEnd.goto .SEP
  else if c = 34 ∨ c = 39 then p.fatal "misplaced quotes"
  else (p.pushChar c).goto .ARG

def parseNibsl : Except Fatal (Parser E) :=
  if c = 10 then p.goto .NIL else (p.pushEsc c).goto .NIL

def parseSebsl : Except Fatal (Parser E) :=
  if c = 10 then p.goto .SEP else (p.pushEsc c).goto .ARG

def parseArbsl : Except Fatal (Parser E) := (p.pushEsc c).goto .ARG

/-- After a dollar in a word. -/
def parseVsign : Except Fatal (Parser E) :=
  if isalpha c then (p.pushVar c).goto .VCONT
  else if !isspace c then do
    let p ← p.substSpecial host c
    p.goto .ARG
  else p.fatal "missing variable name"

/-- In the name of a variable. -/
def parseVcont : Except Fatal (Parser E) :=
  if isalnum c then (p.pushChar c).goto .VCONT
  else do
    let p ← p.substVar host
    p.parseArg host c

/-- In a comment, which `SEP` follows. -/
def parseCommt : Except Fatal (Parser E) :=
  if c = 10 then p.goto .SEP else p.goto .COMMT

/-- In double quotes. -/
def parseDquot : Except Fatal (Parser E) :=
  if c = 34 then p.pushEnd.goto .TRAIL
  else if c = 36 then p.goto .DQVSG
  else if c = 92 then p.goto .DQBSL
  else (p.pushChar c).goto .DQUOT

def parseDqvsg : Except Fatal (Parser E) :=
  if isalpha c then (p.pushVar c).goto .DQVCN
  else if !isspace c then do
    let p ← p.substSpecial host c
    p.goto .DQUOT
  else p.fatal "missing variable name"

def parseDqvcn : Except Fatal (Parser E) :=
  if isalnum c then (p.pushChar c).goto .DQVCN
  else do
    let p ← p.substVar host
    p.parseDquot c

def parseDqbsl : Except Fatal (Parser E) :=
  if c = 10 then p.goto .DQUOT else (p.pushEsc c).goto .DQUOT

/-- In single quotes. -/
def parseSquot : Except Fatal (Parser E) :=
  if c = 92 then p.goto .SQBSL
  else if c = 39 then p.pushEnd.goto .TRAIL
  else (p.pushChar c).goto .SQUOT

def parseSqbsl : Except Fatal (Parser E) :=
  if c = 10 then p.goto .SQUOT else (p.pushEsc c).goto .SQUOT

/-- After the end of a quoted word. -/
def parseTrail : Except Fatal (Parser E) :=
  if c = 10 then do
    let p ← p.execute host
    p.goto .NIL
  else if c = 35 then do
    let p ← p.execute host
    p.goto .COMMT
  else if isspace c then p.goto .SEP
  else p.fatal "trailing characters after quote"

def dispatch : Except Fatal (Parser E) :=
  match p.state with
  | .NIL => p.parseNil c
  | .SEP => p.parseSep host c
  | .ARG => p.parseArg host c
  | .NIBSL => p.parseNibsl c
  | .SEBSL => p.parseSebsl c
  | .ARBSL => p.parseArbsl c
  | .VSIGN => p.parseVsign host c
  | .VCONT => p.parseVcont host c
  | .COMMT => p.parseCommt c
  | .DQUOT => p.parseDquot c
  | .DQBSL => p.parseDqbsl c
  | .DQVSG => p.parseDqvsg host c
  | .DQVCN => p.parseDqvcn host c
  | .SQUOT => p.parseSquot c
  | .SQBSL => p.parseSqbsl c
  | .TRAIL => p.parseTrail host c

/-! ### Entry points -/

/-- `parse`, for one character. -/
def parseChar : Except Fatal (Parser E) :=
  if c = 0 then p.fatal "stray NUL in script"
  else do
    let p ← p.dispatch host c
    return if c = 10 then { p with line := p.line + 1 } else p

def parse (buf : List UInt8) : Except Fatal (Parser E) :=
  buf.foldlM (parseChar host) p

/-- The end of the file may end a command, but no word in quotes. -/
def parseFinish : Except Fatal (Parser E) :=
  if p.buf = [] then .ok p
  else match p.state with
    | .NIL => .ok p
    | .SEP | .TRAIL => p.execute host
    | .ARG => p.pushEnd.execute host
    | _ => p.fatal "unexpected EOF"

/-- What `main` starts from. -/
def init (env : E) : Parser E :=
  { state := .NIL, buf := [], var := none, line := 1, env := env, log := [] }

/-- `parse_file`: the commands that a script runs. -/
def executed (env : E) (script : List UInt8) : Log :=
  match (do
    let p ← (init env).parse host script
    p.parseFinish host : Except Fatal (Parser E)) with
  | .ok p => p.log
  | .error f => f.log

end Parser

end Minibase.Msh
