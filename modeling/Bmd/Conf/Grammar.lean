import Bmd.Conf.System
import Bmd.Lib.Trial

/-!
# `Conf.Grammar` — the parser in the child process (`confparse.y`, `conflex.l`)

The generated parser reads the tokens of a file one by one. Its stack is the state `Lr`: what has been read of the
innermost rules that are not complete yet. All conflicts and look-ahead are inside of expressions; everywhere else a
rule is reduced as soon as its last symbol is read, and the objects are allocated in the order of the text.

The sections go to memory that is shared with the parent, also those of a child that fails later.
-/

namespace Bmd

/-! ## The child -/

/-- What a child leaves to its parent. -/
structure Shared where
  mpools : Mpools
  pctxt : Pctxt
  deriving DecidableEq, Repr

/-- A child that parses a file: the shared memory, its copy of `global_vars`, and `yynerrs`. -/
structure ChildState where
  shared : Shared
  globals : Vartree
  nerrs : Nat

/-- How a child leaves `yyparse` early. -/
inductive ChildStop where
  /-- `goto yyabort` -/
  | abort
  /-- a signal, after a null pointer was used or a division trapped -/
  | killed
  deriving DecidableEq, Repr

/-- Steps of a child; what it did before it stops stays done. -/
abbrev Child := Lib.Trial ChildStop ChildState

/-- `mpool_alloc`: there was memory. -/
def Shared.alloc (sz : Nat) (s : Shared) : Bool × Shared :=
  let r := s.mpools.mpoolAlloc sz
  (r.1.isSome, { s with mpools := r.2 })

/-- `mpool_alloc` in the child. -/
def poolAlloc (sz : Nat) : Child Bool := do
  let r := (← get).shared.alloc sz
  modify fun s => { s with shared := r.2 }
  return r.1

/-- `if (($$ = objalloc(o)) == NULL) goto yyabort;` -/
def objalloc (o : Obj) : Child Unit := do
  if ← poolAlloc o.size then
    pure ()
  else
    throw .abort

/-- As many objects. -/
def objallocs (o : Obj) : Nat → Child Unit
  | 0 => pure ()
  | n + 1 => do
    objalloc o
    objallocs o n

/-- `if ($1 == NULL) goto yyabort;` -/
def notNull : Option String → Child String
  | none => throw .abort
  | some s => pure s

/-! ## The scanner -/

/-- `text2lval`. When there is no memory for a string in double quotes, the scanner goes back into the string and what
    it reads there is a syntax error. -/
def text2lval (l : Lexeme) : Child (Option String) := do
  if ← poolAlloc l.size then
    return some (cstr l.text)
  else if l.quoted then
    throw .abort
  else
    return none

/-- `yynerrs++`. -/
def countError : Child Unit := modify fun s => { s with nerrs := s.nerrs + 1 }

/-- `yylex`; `none`: the scanner goes on to the next token. -/
def yylex : Token → Child (Option Sym)
  | .global => return some .global
  | .vm => return some .vm
  | .template => return some .template
  | .include => return some .include
  | .pleq => return some .pleq
  | .beginAr => return some .beginAr
  | .endAr => return some .endAr
  | .str l => do return some (.str (← text2lval l))
  | .var l => do return some (.var (← text2lval l))
  | .number l => do return some (.number (← text2lval l))
  | .apply l => do return some (.apply (← text2lval l))
  | .char c => return some (.char c)
  | .complaint => do
    countError
    return none

/-! ## The stack -/

/-- The beginning of a section. -/
inductive Header where
  | global
  | template (name : Option String) (argdefs : List Cfargdef)
  | vm (name : Option String)
  deriving DecidableEq, Repr

/-- What a rule `tokens` is part of. -/
inductive Slot where
  | include
  | argdef (name : Option String) (argdefs : List Cfargdef) (arg : Option String)
  | value (h : Header) (params : List Cfparam) (key : Cfkey) (operator : Int) (vals : List Cfvalue)
  | target (h : Header) (params : List Cfparam) (key : Cfkey) (vals : List Cfvalue)
  | arg (h : Header) (params : List Cfparam) (key : Cfkey) (vals : List Cfvalue) (tokens : Cftokens)
      (args : List Cftokens)
  deriving DecidableEq, Repr

/-- The stack of the parser. -/
inductive Lr where
  /-- between two sections -/
  | conf
  /-- `GLOBAL` -/
  | global
  /-- `TEMPLATE` -/
  | template
  /-- `TEMPLATE STR` -/
  | templateName (name : Option String)
  /-- `TEMPLATE STR '('`, or `argdefs ','` behind it -/
  | argdefs (name : Option String) (argdefs : List Cfargdef)
  /-- a `STR` behind that -/
  | argdef (name : Option String) (argdefs : List Cfargdef) (arg : Option String)
  /-- `TEMPLATE STR '(' argdefs ')'` -/
  | argdefsClosed (name : Option String) (argdefs : List Cfargdef)
  /-- `VM` -/
  | vm
  /-- `VM STR` -/
  | vmName (name : Option String)
  /-- a header, `'{' param_l` -/
  | params (h : Header) (params : List Cfparam)
  /-- `name` behind that -/
  | name (h : Header) (params : List Cfparam) (key : Cfkey)
  /-- `tokens` -/
  | tokens (slot : Slot) (ts : Cftokens)
  /-- `tokens BEGIN_AR` and the symbols behind it -/
  | expr (slot : Slot) (ts : Cftokens) (stack : List ExprSym)
  /-- `macro targets`, where the last target has arguments -/
  | targets (h : Header) (params : List Cfparam) (key : Cfkey) (vals : List Cfvalue)
  /-- `param_l param` where the parameter is an error: symbols are discarded up to a `;` -/
  | recovering (h : Header) (params : List Cfparam)
  deriving DecidableEq, Repr

/-- The list of parameters on the stack, with its header. -/
def Slot.params : Slot → Option (Header × List Cfparam)
  | .include | .argdef .. => none
  | .value h ps _ _ _ | .target h ps _ _ | .arg h ps _ _ _ _ => some (h, ps)

/-- The list of parameters on the stack, with its header. -/
def Lr.paramList : Lr → Option (Header × List Cfparam)
  | .params h ps | .name h ps _ | .targets h ps _ _ | .recovering h ps => some (h, ps)
  | .tokens slot _ | .expr slot _ _ => slot.params
  | _ => none

/-! ## Errors -/

/-- The parameter of the rule `param : error`. -/
def errorParam : Cfparam := { key := none, vals := [], operator := -1 }

/-- The next symbol after an error; `none` at the end of the file. -/
def recover (h : Header) (ps : List Cfparam) : Option Sym → Child Lr
  | none => throw .abort
  | some (.char ';') => return .params h (ps ++ [errorParam])
  | some _ => return .recovering h ps

/-- A syntax error. The stack is cut down to a list of parameters, if there is one. -/
def syntaxError (params : Option (Header × List Cfparam)) (sym : Option Sym) : Child Lr := do
  countError
  match params with
  | none => throw .abort
  | some (h, ps) => do
    objalloc .cfparam
    recover h ps sym

/-! ## Sections -/

/-- The file that is parsed, and the files as the child sees them. -/
structure ChildEnv where
  view : FileView
  filename : String

/-- `peek_fileowner`. -/
def peekFileowner (env : ChildEnv) : UInt32 := ((env.view.stat env.filename).map (·.uid)).getD nobodyUid

/-- The list for a kind of sections. -/
def Pctxt.sections (p : Pctxt) : SectionKind → List Cfsection
  | .global => p.cfglobals
  | .template => p.cftemplates
  | .vm => p.cfvms

def Pctxt.setSections (p : Pctxt) (l : List Cfsection) : SectionKind → Pctxt
  | .global => { p with cfglobals := l }
  | .template => { p with cftemplates := l }
  | .vm => { p with cfvms := l }

/-- The loop of `add_section` that marks the first section of the same name; `none`: `strcmp` got a null pointer. -/
def markDuplicate (name : String) : List Cfsection → Option (List Cfsection)
  | [] => some []
  | v :: rest =>
    match v.name with
    | none => none
    | some n =>
      if n = name then some ({ v with duplicate := v.duplicate + 1 } :: rest)
      else (markDuplicate name rest).map (v :: ·)

/-- The list after the loop. -/
def marked (kind : SectionKind) (name : Option String) (l : List Cfsection) : Option (List Cfsection) :=
  match kind, name with
  | .global, _ | _, none => some l
  | _, some n => markDuplicate n l

def modPctxt (f : Pctxt → Pctxt) : Child Unit := modify fun s =>
  { s with shared := { s.shared with pctxt := f s.shared.pctxt } }

/-- `add_section`, and the lists that the rules for sections put into it. -/
def addSection (env : ChildEnv) (kind : SectionKind) (name : Option String) (params : List Cfparam)
    (argdefs : List Cfargdef) : Child Unit := do
  match marked kind name ((← get).shared.pctxt.sections kind) with
  | none => throw .killed
  | some l => do
    modPctxt fun p => p.setSections l kind
    objalloc .cfsection
    modPctxt fun p => p.setSections (p.sections kind ++
      [{ name := name, params := params, argdefs := argdefs, applied := 0, duplicate := 0, owner := peekFileowner env,
         filename := env.filename }]) kind

/-- The loop of `apply_global_vars`; `none` when it is killed. -/
def globalVarsOf : List Cfparam → Vartree → Option Vartree
  | [], gv => some gv
  | pr :: rest, gv =>
    match pr.key, pr.vals with
    | none, _ => none
    | some (.str _), _ => globalVarsOf rest gv
    | some (.var _), [] => none
    | some (.var k), vl :: _ =>
      match tokenToString (.ofGlobals gv) vl.tokens with
      | .error .trap => none
      | .error .error => globalVarsOf rest gv
      | .ok val => globalVarsOf rest ((Variables.ofGlobals gv).setVar k val).globals

/-- `apply_global_vars`. -/
def applyGlobalVars (params : List Cfparam) : Child Unit := do
  match globalVarsOf params (← get).globals with
  | none => throw .killed
  | some gv => modify fun s => { s with globals := gv }

/-- The rules `global`, `tmpl` and `vm`. -/
def closeSection (env : ChildEnv) (h : Header) (params : List Cfparam) : Child Lr := do
  match h with
  | .global => do
    addSection env .global none params []
    applyGlobalVars params
  | .template name argdefs => addSection env .template name params argdefs
  | .vm name => addSection env .vm name params []
  return .conf

/-! ## Included files -/

/-- `push_file`. -/
def pushFile (v : FileView) (fn : String) (s : Shared) : Int × Shared :=
  match v.realpath fn with
  | none => (0, s)
  | some path =>
    if "/dev".toList.isPrefixOf path.toList || !v.access path then (-1, s)
    else if s.pctxt.cffiles.contains path then (-1, s)
    else
      let rpath := s.alloc (path.toList.length + 1)
      let file := rpath.2.alloc Obj.cffile.size
      if rpath.1 && file.1 then
        (0, { file.2 with pctxt := { file.2.pctxt with cffiles := file.2.pctxt.cffiles ++ [path] } })
      else (-1, file.2)

/-- The pattern of an `.include`: a relative one starts from the directory of the file. -/
def includePattern (filename path : String) : String :=
  if ['/'].isPrefixOf path.toList then path else dirname filename ++ "/" ++ path

/-- The paths that `glob_path` pushes; `none` when it is killed. -/
def globPaths (env : ChildEnv) (gv : Vartree) (ts : Cftokens) : Option (List String) :=
  if ts.isEmpty then some []
  else
    match tokenToString (.ofGlobals gv) ts with
    | .error .trap => none
    | .error .error => some []
    | .ok path => some ((env.view.glob (includePattern env.filename path)).getD [])

/-- The loop of `glob_path`; what `push_file` returns is not looked at. -/
def pushFiles (v : FileView) : List String → Shared → Shared
  | [], s => s
  | fn :: rest, s => pushFiles v rest (pushFile v fn s).2

/-- `glob_path`. -/
def globPath (env : ChildEnv) (ts : Cftokens) : Child Unit := do
  match globPaths env (← get).globals ts with
  | none => throw .killed
  | some paths => modify fun s => { s with shared := pushFiles env.view paths s.shared }

/-! ## Rules inside of a section -/

/-- `values : value | values ',' value`, and the same for `targets`. -/
def addValue (vals : List Cfvalue) (v : Cfvalue) : Child (List Cfvalue) := do
  objalloc .cfvalue
  objallocs .cfvalues (if vals.isEmpty then 1 else 0)
  return vals ++ [v]

/-- `args : arg | args ',' arg`. -/
def addArg (args : List Cftokens) (ts : Cftokens) : Child (List Cftokens) := do
  objalloc .cfarg
  objallocs .cfargs (if args.isEmpty then 1 else 0)
  return args ++ [ts]

/-- `argdefs : argdef | argdefs ',' argdef`. -/
def addArgdef (defs : List Cfargdef) (d : Cfargdef) : Child (List Cfargdef) := do
  objalloc .cfargdef
  objallocs .cfargdefs (if defs.isEmpty then 1 else 0)
  return defs ++ [d]

/-- The empty rule of `tokens`. -/
def beginTokens (slot : Slot) : Child Lr := do
  objalloc .cftokens
  return .tokens slot []

/-- The empty rule of `param_l`. -/
def beginParams (h : Header) : Child Lr := do
  objalloc .cfparams
  return .params h []

/-- `param : ...`, followed by `;`. -/
def addParam (h : Header) (ps : List Cfparam) (key : Cfkey) (operator : Int) (vals : List Cfvalue) : Child Lr := do
  objalloc .cfparam
  return .params h (ps ++ [{ key := some key, vals := vals, operator := operator }])

/-- A symbol behind `tokens` that is not part of it. -/
def endTokens (env : ChildEnv) (slot : Slot) (ts : Cftokens) (sym : Sym) : Child Lr :=
  match slot, sym with
  | .include, .char ';' => do
    globPath env ts
    return .conf
  | .argdef name defs arg, .char ',' => do return .argdefs name (← addArgdef defs { name := arg, tokens := ts })
  | .argdef name defs arg, .char ')' => do return .argdefsClosed name (← addArgdef defs { name := arg, tokens := ts })
  | .value h ps key operator vals, .char ',' => do
    beginTokens (.value h ps key operator (← addValue vals { tokens := ts, args := [] }))
  | .value h ps key operator vals, .char ';' => do
    addParam h ps key operator (← addValue vals { tokens := ts, args := [] })
  | .target h ps key vals, .char ',' => do
    beginTokens (.target h ps key (← addValue vals { tokens := ts, args := [] }))
  | .target h ps key vals, .char ';' => do
    addParam h ps key 0 (← addValue vals { tokens := ts, args := [] })
  | .target h ps key vals, .char '(' => beginTokens (.arg h ps key vals ts [])
  | .arg h ps key vals target args, .char ',' => do
    beginTokens (.arg h ps key vals target (← addArg args ts))
  | .arg h ps key vals target args, .char ')' => do
    let args ← addArg args ts
    return .targets h ps key (← addValue vals { tokens := target, args := args })
  | slot, sym => syntaxError slot.params (some sym)

/-- `tokens STR` and `tokens VAR`. -/
def addToken (slot : Slot) (ts : Cftokens) (mk : String → Cftoken) (s : Option String) : Child Lr := do
  let s ← notNull s
  objalloc .cftoken
  return .tokens slot (ts ++ [mk s])

/-! ## Expressions -/

/-- The character of an operator. -/
def binOpOf : Char → Option BinOp
  | '+' => some .add
  | '-' => some .sub
  | '*' => some .mul
  | '/' => some .div
  | '%' => some .mod
  | _ => none

/-- How many times `expr : expr op expr` is reduced below the `expr` on top. -/
def reductions : List ExprSym → Nat
  | .op _ :: .expr _ :: rest => reductions rest + 1
  | _ => 0

/-- A minus waits for its operand. -/
def negated : List ExprSym → Bool
  | .neg :: _ => true
  | _ => false

/-- A number or a variable in an expression. -/
def addOperand (slot : Slot) (ts : Cftokens) (stack : List ExprSym) (mk : String → ExprToken) (s : Option String)
    (sym : Sym) : Child Lr := do
  match stack with
  | .expr _ :: _ => syntaxError slot.params (some sym)
  | _ => do
    objallocs .cfexpr (if negated stack then 2 else 1)
    let s ← notNull s
    match shiftExpr stack (mk s) with
    | none => syntaxError slot.params (some sym)
    | some stack => return .expr slot ts stack

/-- The end of an operand in parentheses. -/
def closeParen (slot : Slot) (ts : Cftokens) (stack : List ExprSym) : Child Lr := do
  match stack with
  | .expr e :: rest => do
    objallocs .cfexpr (reductions rest)
    match reduceExpr e rest with
    | (e, .lpar :: rest) => do
      objallocs .cfexpr (if negated rest then 1 else 0)
      match pushOperand e rest with
      | none => syntaxError slot.params (some (.char ')'))
      | some stack => return .expr slot ts stack
    | _ => syntaxError slot.params (some (.char ')'))
  | _ => syntaxError slot.params (some (.char ')'))

/-- `tokens BEGIN_AR expr END_AR`. -/
def closeExpr (slot : Slot) (ts : Cftokens) (stack : List ExprSym) : Child Lr := do
  match stack with
  | .expr e :: rest => do
    objallocs .cfexpr (reductions rest)
    match reduceExpr e rest with
    | (e, []) => do
      objalloc .cftoken
      return .tokens slot (ts ++ [.expr e])
    | _ => syntaxError slot.params (some .endAr)
  | _ => syntaxError slot.params (some .endAr)

/-- A parenthesis that opens, or an operator. -/
def shiftMark (slot : Slot) (ts : Cftokens) (stack : List ExprSym) (tk : ExprToken) (sym : Sym) : Child Lr :=
  match shiftExpr stack tk with
  | none => syntaxError slot.params (some sym)
  | some stack => return .expr slot ts stack

/-- A symbol behind `BEGIN_AR`. -/
def exprSym (slot : Slot) (ts : Cftokens) (stack : List ExprSym) (sym : Sym) : Child Lr :=
  match sym with
  | .number s => addOperand slot ts stack .number s sym
  | .var s => addOperand slot ts stack .var s sym
  | .endAr => closeExpr slot ts stack
  | .char '(' => shiftMark slot ts stack .lpar sym
  | .char ')' => closeParen slot ts stack
  | .char c =>
    match binOpOf c with
    | some o => shiftMark slot ts stack (.op o) sym
    | none => syntaxError slot.params (some sym)
  | _ => syntaxError slot.params (some sym)

/-! ## The parser -/

/-- A key of a parameter. -/
def beginParam (mk : String → Cfkey) (s : Option String) : Child Cfkey := do
  let s ← notNull s
  objalloc .cftoken
  return mk s

/-- What the parser does with a symbol. -/
def shiftSym (env : ChildEnv) (st : Lr) (sym : Sym) : Child Lr :=
  match st, sym with
  | .conf, .global => return .global
  | .conf, .template => return .template
  | .conf, .vm => return .vm
  | .conf, .include => beginTokens .include
  | .global, .char '{' => beginParams .global
  | .template, .str s => return .templateName s
  | .templateName name, .char '{' => beginParams (.template name [])
  | .templateName name, .char '(' => return .argdefs name []
  | .argdefs name defs, .str s => return .argdef name defs s
  | .argdef name defs arg, .char '=' => beginTokens (.argdef name defs arg)
  | .argdef name defs arg, .char ',' => do return .argdefs name (← addArgdef defs { name := arg, tokens := [] })
  | .argdef name defs arg, .char ')' => do return .argdefsClosed name (← addArgdef defs { name := arg, tokens := [] })
  | .argdefsClosed name defs, .char '{' => beginParams (.template name defs)
  | .vm, .str s => return .vmName s
  | .vmName name, .char '{' => beginParams (.vm name)
  | .params h ps, .char '}' => closeSection env h ps
  | .params h ps, .str s => do return .name h ps (← beginParam .str s)
  | .params h ps, .var s => do return .name h ps (← beginParam .var s)
  | .params h ps, .apply s => do
    let key ← beginParam .str s
    beginTokens (.target h ps key [])
  | .name h ps key, .char '=' => beginTokens (.value h ps key 0 [])
  | .name h ps key, .pleq => beginTokens (.value h ps key 1 [])
  | .tokens slot ts, .str s => addToken slot ts .str s
  | .tokens slot ts, .var s => addToken slot ts .var s
  | .tokens slot ts, .beginAr => return .expr slot ts []
  | .tokens slot ts, sym => endTokens env slot ts sym
  | .expr slot ts stack, sym => exprSym slot ts stack sym
  | .targets h ps key vals, .char ',' => beginTokens (.target h ps key vals)
  | .targets h ps key vals, .char ';' => addParam h ps key 0 vals
  | .recovering h ps, sym => recover h ps (some sym)
  | st, sym => syntaxError st.paramList (some sym)

/-- The scanner and the parser on one token. -/
def parseToken (env : ChildEnv) (st : Lr) (tk : Token) : Child Lr := do
  match ← yylex tk with
  | none => return st
  | some sym => shiftSym env st sym

/-- The end of the file. -/
def endOfFile : Lr → Child Unit
  | .conf => pure ()
  | .recovering _ _ => throw .abort
  | st => do
    let _ ← syntaxError st.paramList none

/-- `yyparse`. -/
def yyparse (env : ChildEnv) (tokens : List Token) : Child Unit := do
  endOfFile (← tokens.foldlM (parseToken env) .conf)

/-- How a child ended. -/
inductive Exit where
  | status (n : Nat)
  | signal
  deriving DecidableEq, Repr

/-- The child that `parse` forks for a file that it can open. -/
def parseTokens (env : ChildEnv) (tokens : List Token) (gv : Vartree) (s : Shared) : Exit × Shared :=
  match yyparse env tokens { shared := s, globals := gv, nerrs := 0 } with
  | (.ok (), c) => (.status (if c.nerrs = 0 then 0 else 1), c.shared)
  | (.error .abort, c) => (.status 1, c.shared)
  | (.error .killed, c) => (.signal, c.shared)

/-- The child that `parse` forks. -/
def parseChild (sys : Sys) (file : String) (gv : Vartree) (s : Shared) : Exit × Shared :=
  match sys.files.stat file with
  | none => (.status 0, s)
  | some st =>
    if !st.regular then (.status 0, s)
    else
      match (sys.filesAs st).fopen file with
      | none => (.status 0, s)
      | some tokens => parseTokens { view := sys.filesAs st, filename := file } tokens gv s

end Bmd
