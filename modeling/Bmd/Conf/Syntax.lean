import Bmd.Conf.Expr
import Bmd.Conf.NvList

/-!
# `Conf.Syntax` — tokens and sections of a configuration file (`confparse.h`)

The scanner cuts a file into tokens; a token with a text takes memory from a pool. The parser makes sections of them.
The line numbers that tokens carry for messages are left out, and so is the file name, which is the one of the file
that is being parsed.
-/

namespace Bmd

/-! ## Tokens -/

/-- A text of the scanner: the value that `text2lval` leaves, the bytes it allocates for it, and whether it is the first
    piece of a string in double quotes. -/
structure Lexeme where
  text : String
  size : Nat
  quoted : Bool := false
  deriving DecidableEq, Repr

/-- What `yylex` comes upon. -/
inductive Token where
  | global | vm | template | include
  | pleq | beginAr | endAr
  | str (l : Lexeme)
  | var (l : Lexeme)
  | number (l : Lexeme)
  | apply (l : Lexeme)
  | char (c : Char)
  /-- an unterminated comment, string or variable: no token, but counted in `yynerrs` -/
  | complaint
  deriving DecidableEq, Repr

/-- What `yylex` returns. The text is `none` when there was no memory for it. -/
inductive Sym where
  | global | vm | template | include
  | pleq | beginAr | endAr
  | str (s : Option String)
  | var (s : Option String)
  | number (s : Option String)
  | apply (s : Option String)
  | char (c : Char)
  deriving DecidableEq, Repr

/-! ## Sections -/

/-- `struct cftoken`. -/
inductive Cftoken where
  | str (s : String)
  | var (s : String)
  | expr (e : Cfexpr)
  deriving DecidableEq, Repr

/-- `struct cftokens`. -/
abbrev Cftokens := List Cftoken

/-- The key of a parameter: a token of type `CF_STR` or `CF_VAR`. -/
inductive Cfkey where
  | str (s : String)
  | var (s : String)
  deriving DecidableEq, Repr

/-- `struct cfvalue`; `args` is the list of `struct cfarg`. -/
structure Cfvalue where
  tokens : Cftokens
  args : List Cftokens
  deriving DecidableEq, Repr

/-- `struct cfparam`. The key is missing after a syntax error. -/
structure Cfparam where
  key : Option Cfkey
  vals : List Cfvalue
  operator : Int
  deriving DecidableEq, Repr

/-- The parameter `key = val;`. -/
def Cfparam.set (key val : String) : Cfparam :=
  { key := some (.str key), vals := [{ tokens := [.str val], args := [] }], operator := 0 }

/-- `struct cfargdef`. -/
structure Cfargdef where
  name : Option String
  tokens : Cftokens
  deriving DecidableEq, Repr

/-- `struct cfsection`. -/
structure Cfsection where
  name : Option String
  params : List Cfparam
  argdefs : List Cfargdef
  applied : Nat
  duplicate : Nat
  owner : UInt32
  filename : String
  deriving DecidableEq, Repr

/-- `enum SECTION`. -/
inductive SectionKind where
  | global | template | vm
  deriving DecidableEq, Repr

/-- `struct parser_context` without `cur_file`; a file is its name. -/
structure Pctxt where
  cfglobals : List Cfsection
  cftemplates : List Cfsection
  cfvms : List Cfsection
  cffiles : List String
  deriving DecidableEq, Repr

/-- The context that `load_config_file` begins with. -/
def Pctxt.empty : Pctxt := { cfglobals := [], cftemplates := [], cfvms := [], cffiles := [] }

/-! ## Sizes of objects -/

/-- The structures that `objalloc` allocates. -/
inductive Obj where
  | cfsection | cfparams | cfparam | cfvalues | cfvalue | cftokens | cftoken | cfexpr
  | cfargdefs | cfargdef | cfargs | cfarg | cffile | parserContext
  deriving DecidableEq, Repr

/-- `sizeof`, with pointers and `size_t` of 8 bytes. -/
def Obj.size : Obj → Nat
  | .cfsection => 72
  | .cfparams => 16
  | .cfparam => 40
  | .cfvalues => 16
  | .cfvalue => 40
  | .cftokens => 16
  | .cftoken => 56
  | .cfexpr => 32
  | .cfargdefs => 16
  | .cfargdef => 32
  | .cfargs => 16
  | .cfarg => 24
  | .cffile => 24
  | .parserContext => 72

end Bmd
