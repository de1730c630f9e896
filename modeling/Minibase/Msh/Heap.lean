import Minibase.Lib.Memory
import Minibase.Lib.CInt
import Minibase.Lib.Outcome

/-!
# The heap of msh

The variables of `msh` and the arguments of the command it is about to run share one heap: the
entries come first, packed back to back up to `asep`, and the arguments after them up to `hptr`.
Addresses are counted from the start of the heap. An entry starts with a word, its key, that says
what kind of entry it is and how long, or which string of the environment it refers to. This is
`msh_common.c` as far as it is about the heap, and the commands of `msh_cmd_envp.c`. The end of
the process, `fatal`, is an error. `appended` is a record of where entries have been appended;
nothing depends on it.
-/

namespace Minibase.Msh

/-- A string, without the zero at its end. -/
structure Str where
  chars : List UInt8
  nonul : 0 ∉ chars

instance : DecidableEq Str := fun a b => decidable_of_iff (a.chars = b.chars)
  ⟨fun h => by cases a; cases b; cases h; rfl, congrArg Str.chars⟩

/-- `struct sh`, as far as it matters here. The kernel lets the heap grow up to `brk`. -/
structure Sh where
  environ : List Str
  customenvp : ℤ
  argp : ℕ
  argv : List ℕ
  asep : ℕ
  hptr : ℕ
  brk : ℕ
  mem : Mem
  appended : List ℕ

/-- The parts of a key. -/
def EV_SIZE : ℕ := 0xFFFF

@[inherit_doc EV_SIZE] def EV_ENVP : ℕ := 1 <<< 16

@[inherit_doc EV_SIZE] def EV_SVAR : ℕ := 1 <<< 17

@[inherit_doc EV_SIZE] def EV_REF : ℕ := 1 <<< 24

/-- The size of `struct env`. -/
def ENV : ℕ := 4

namespace Sh

variable (ctx : Sh)

/-- The string at an address; none goes on beyond what has been allocated. -/
def str (p : ℕ) : List UInt8 := (ctx.mem.load p (ctx.hptr - p)).takeWhile (· ≠ 0)

/-- `ev->key`. -/
def key (ev : ℕ) : ℕ := ctx.mem.get16 ev + 65536 * ctx.mem.get16 (ev + 2)

/-- Sets `ev->key`. -/
def setKey (ev key : ℕ) : Sh := { ctx with mem := ctx.mem.store ev (le 4 key) }

/-- The size of an entry, by its key. -/
def sizeOf (key : ℕ) : ℕ := if key &&& EV_REF ≠ 0 then ENV else key &&& EV_SIZE

/-! ### Going through the entries -/

def envFirst : Option ℕ :=
  if ctx.asep < ENV then none
  else if sizeOf (ctx.key 0) < ENV then none
  else if ctx.asep < sizeOf (ctx.key 0) then none
  else some 0

/-- The entry after one, if it lies inside. -/
def envNext (ev : ℕ) : Option ℕ :=
  if ctx.asep ≤ ev then none
  else if ctx.asep < ev + sizeOf (ctx.key ev) + ENV then none
  -- the size is still that of the entry before
  else if ctx.asep < ev + sizeOf (ctx.key ev) + sizeOf (ctx.key ev) then none
  else some (ev + sizeOf (ctx.key ev))

/-- The text of an entry of a type, or the variable it refers to. -/
def envValue (ev type : ℕ) : Option (List UInt8) :=
  let key := ctx.key ev
  if key &&& type = 0 then none
  else if key &&& EV_REF = 0 then some (ctx.str (ev + ENV))
  else some ((ctx.environ.map Str.chars).getD (key &&& EV_SIZE) [])

/-- The entries that a loop meets. -/
def envsFrom : ℕ → Option ℕ → List ℕ
  | n + 1, some ev => ev :: envsFrom n (ctx.envNext ev)
  | _, _ => []

/-- The entries that a loop from `env_first` with `env_next` meets. It takes no more rounds than
there are bytes. -/
def envs : List ℕ := ctx.envsFrom ctx.asep ctx.envFirst

/-- A loop that changes the entries it meets. -/
def forEnvs (f : Sh → ℕ → Sh) : ℕ → Option ℕ → Sh → Sh
  | n + 1, some ev, ctx => forEnvs f n ((f ctx ev).envNext ev) (f ctx ev)
  | _, _, ctx => ctx

/-! ### Arguments and memory -/

/-- The next argument. -/
def shift : Except String (ℕ × Sh) :=
  match ctx.argv[ctx.argp]? with
  | none => .error "too few arguments"
  | some p => .ok (p, { ctx with argp := ctx.argp + 1 })

def noMoreArguments : Except String Unit :=
  refuse (ctx.argp < ctx.argv.length) "too many arguments"

/-- Memory at the end of the heap. -/
def heapAlloc (len : ℕ) : Except String (ℕ × Sh) :=
  if ctx.brk < ctx.hptr + len then .error "cannot allocate memory"
  else .ok (ctx.hptr, { ctx with hptr := ctx.hptr + len })

/-- `memcpy` of bytes to an address. -/
def write (p : ℕ) (bs : List UInt8) : Sh := { ctx with mem := ctx.mem.store p bs }

def reallocHigher (str : ℕ) : Except String (ℕ × Sh) := do
  let s := ctx.str str
  let (new, ctx) ← ctx.heapAlloc (roundUp4 (s.length + 1))
  return (new, ctx.write new (s ++ [0]))

/-- A variable is put down as `name=value`. -/
def reallocPair (key val : ℕ) : Except String (ℕ × Sh) := do
  let k := ctx.str key
  let v := ctx.str val
  let (new, ctx) ← ctx.heapAlloc (roundUp4 (k.length + v.length + 2))
  return (new, ctx.write new (k ++ 61 :: v ++ [0]))

end Sh

/-! ### Variables -/

/-- A variable is of a name: it begins with that and `=`. -/
def named : List UInt8 → List UInt8 → Bool
  | v :: var, n :: name => if v = n then named var name else false
  | v :: _, [] => v = 61
  | [], _ => false

namespace Sh

variable (ctx : Sh) (name : ℕ)

def checkValidName : Except String Unit :=
  refuse (61 ∈ ctx.str name) "invalid variable name:"

/-- An entry is a variable of that name. -/
def holdsVar (type : ℕ) (name : List UInt8) (ev : ℕ) : Bool :=
  match ctx.envValue ev type with
  | none => false
  | some var => named var name

def checkNotDefined : Except String Unit :=
  refuse (ctx.envs.any (ctx.holdsVar EV_SVAR (ctx.str name))) "duplicate definition"

/-- `clear_definition`, for one entry. -/
def clearOne (ctx : Sh) (ev : ℕ) : Sh :=
  if ctx.holdsVar EV_ENVP (ctx.str name) ev then
    ctx.setKey ev (ctx.key ev &&& (0xFFFFFFFF ^^^ (EV_ENVP ||| EV_SVAR)))
  else ctx

def clearDefinition : Sh := forEnvs (clearOne name) ctx.asep ctx.envFirst ctx

/-- `clear_all_entries`, for one entry. -/
def dropOne (type : ℕ) (ctx : Sh) (ev : ℕ) : Sh :=
  if ctx.key ev &&& type = 0 then ctx
  else ctx.setKey ev (ctx.key ev &&& (0xFFFFFFFF ^^^ type))

def clearAllEntries (type : ℕ) : Sh := forEnvs (dropOne type) ctx.asep ctx.envFirst ctx

/-- An entry with a text of its own. -/
def appendVariable (var type : ℕ) : Except String Sh :=
  let s := ctx.str var
  let size := roundUp4 (ENV + s.length + 1)
  if EV_SIZE < size then .error "variable overflow"
  else
    let ctx := { ctx with asep := ctx.asep + size, appended := ctx.appended ++ [ctx.asep] }.setKey
      ctx.asep (type ||| size)
    .ok (ctx.write (ctx.asep - size + ENV) (ctx.mem.load var (s.length + 1)))

/-- An entry for a variable there was at the start. -/
def appendReference (idx type : ℕ) : Except String Sh :=
  if EV_SIZE < idx then .error "reference overflow"
  else .ok ({ ctx with asep := ctx.asep + ENV, appended := ctx.appended ++ [ctx.asep] }.setKey
    ctx.asep (EV_REF ||| type ||| idx))

def reserveOrigEnvp : Except String Sh :=
  if 0 ≤ ctx.customenvp then .ok ctx
  else do
    let (_, ctx) ← ctx.heapAlloc ((ctx.environ.length + 1) * ENV)
    return ctx

/-- The loop of `start_custom_envp`: so many references are still to be appended. -/
def appendReferences : ℕ → Sh → Except String Sh
  | 0, ctx => .ok ctx
  | n + 1, ctx => do
    let ctx ← ctx.appendReference (ctx.environ.length - (n + 1)) EV_ENVP
    appendReferences n ctx

/-- What there was at the start is referred to, once. -/
def startCustomEnvp : Except String Sh :=
  if 0 ≤ ctx.customenvp then .ok ctx
  else do
    let ctx ← appendReferences ctx.environ.length ctx
    return { ctx with customenvp := ctx.environ.length }

/-! ### Commands -/

def cmdSet : Except String Sh := do
  let (var, ctx) ← ctx.shift
  let (val, ctx) ← ctx.shift
  ctx.noMoreArguments
  ctx.checkValidName var
  ctx.checkNotDefined var
  let (pair, ctx) ← ctx.reallocPair var val
  ctx.appendVariable pair EV_SVAR

def cmdSetenv : Except String Sh := do
  let (var, ctx) ← ctx.shift
  let (val, ctx) ← ctx.shift
  ctx.noMoreArguments
  ctx.checkValidName var
  let ctx ← ctx.reserveOrigEnvp
  let (key, ctx) ← ctx.reallocHigher var
  let (pair, ctx) ← ctx.reallocPair var val
  let ctx ← ctx.startCustomEnvp
  (ctx.clearDefinition key).appendVariable pair EV_ENVP

def cmdGetenv : Except String Sh := do
  let (name, ctx) ← ctx.shift
  ctx.noMoreArguments
  ctx.checkValidName name
  ctx.checkNotDefined name
  match ctx.environ.findIdx? fun var => named var.chars (ctx.str name) with
  | none => .error "undefined variable:"
  | some i => ctx.appendReference i EV_SVAR

def cmdDelenv : Except String Sh := do
  let (name, ctx) ← ctx.shift
  ctx.noMoreArguments
  ctx.checkValidName name
  let ctx ← ctx.reserveOrigEnvp
  let (name, ctx) ← ctx.reallocHigher name
  let ctx ← ctx.startCustomEnvp
  return ctx.clearDefinition name

def cmdClearenv : Except String Sh := do
  ctx.noMoreArguments
  return if ctx.customenvp < 0 then { ctx with customenvp := 0 } else ctx.clearAllEntries EV_ENVP

end Sh

/-- The commands about variables. -/
inductive Verb
  | set
  | getenv
  | setenv
  | delenv
  | clearenv
deriving DecidableEq, Repr

namespace Verb

/-- The name of a command. -/
def name : Verb → List UInt8
  | set => [115, 101, 116]
  | getenv => [103, 101, 116, 101, 110, 118]
  | setenv => [115, 101, 116, 101, 110, 118]
  | delenv => [100, 101, 108, 101, 110, 118]
  | clearenv => [99, 108, 101, 97, 114, 101, 110, 118]

/-- What a command does. -/
def func : Verb → Sh → Except String Sh
  | set => Sh.cmdSet
  | getenv => Sh.cmdGetenv
  | setenv => Sh.cmdSetenv
  | delenv => Sh.cmdDelenv
  | clearenv => Sh.cmdClearenv

/-- `builtin`, as far as it is about variables. -/
def builtin (lead : List UInt8) : Option Verb :=
  [set, getenv, setenv, delenv, clearenv].find? fun v => v.name = lead

end Verb

namespace Sh

variable (ctx : Sh)

/-- The arguments as the parser leaves them, one after the other. -/
def argBytes (args : List (List UInt8)) : List UInt8 := args.flatMap (· ++ [0])

/-- What `index_args` makes of them: the address of each argument. -/
def indexArgs : ℕ → List (List UInt8) → List ℕ
  | _, [] => []
  | p, s :: args => p :: indexArgs (p + s.length + 1) args

/-- The parser has read a command. -/
def pushArgs (args : List (List UInt8)) : Except String Sh := do
  let (p, ctx) ← ctx.heapAlloc (argBytes args).length
  return ctx.write p (argBytes args)

def command (argv : List ℕ) : Except String Sh := do
  let ctx := { ctx with argp := 1, argv := argv }
  match Verb.builtin (ctx.str (argv.getD 0 0)) with
  | none => .error "unknown command"
  | some v =>
    let ctx ← v.func ctx
    return { ctx with argv := [] }

/-- `execute`, for arguments that the parser has just read. What the array `argv` itself takes up
is not looked at again. -/
def execute (args : List (List UInt8)) : Except String Sh :=
  if args = [] then .ok ctx
  else do
    let ctx ← ctx.pushArgs args
    let (_, ctx) ← ctx.heapAlloc ((args.length + 1) * 8)
    let ctx ← ctx.command (indexArgs ctx.asep args)
    return { ctx with hptr := ctx.asep }

/-! ### What the variables are for -/

/-- The value of a variable of the shell. -/
def valueof (name : List UInt8) : Option (List UInt8) :=
  ctx.envs.findSome? fun ev =>
    match ctx.envValue ev EV_SVAR with
    | none => none
    | some var =>
      if var.take name.length = name ∧ (var.drop name.length).head? = some 61 then
        some (var.drop (name.length + 1))
      else none

/-- The environment a command gets. -/
def prepenvp : List (List UInt8) :=
  if ctx.customenvp < 0 then ctx.environ.map Str.chars
  else ctx.envs.filterMap fun ev => ctx.envValue ev EV_ENVP

end Sh

end Minibase.Msh
