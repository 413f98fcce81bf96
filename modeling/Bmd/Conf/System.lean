import Bmd.Conf.Pool
import Bmd.Conf.Syntax

/-!
# `Conf.System` — what `load_config_file` reads from outside

The file system, the user database and the plugin directory during one call. The files are seen by two kinds of
processes: the daemon itself, and a child that parses a file and has given up the daemon's privileges for those of
the file's owner.
-/

namespace Bmd

/-- `UID_NOBODY`, as the owner of a file. -/
def nobodyUid : UInt32 := 65534

/-- What `stat(2)` tells. -/
structure Stat where
  regular : Bool
  uid : UInt32
  gid : UInt32
  deriving DecidableEq, Repr

/-- The files as a process sees them. -/
structure FileView where
  realpath : String → Option String
  /-- `access(path, R_OK)` -/
  access : String → Bool
  stat : String → Option Stat
  /-- the paths that match a pattern; `none` when there is no match or an error -/
  glob : String → Option (List String)
  /-- `fopen`, and the tokens of the file -/
  fopen : String → Option (List Token)

/-- `struct passwd`. -/
structure Passwd where
  name : String
  uid : UInt32
  gid : UInt32
  deriving DecidableEq, Repr

/-- `struct plugin_entry`: the name of its method, if it has one, and its function `parse_config`, which may change the
    plugin's nvlist. -/
structure Plugin where
  name : String
  method : Option String
  parseConfig : Option (NvList → String → String → Int × NvList)

/-- The entry that `load_plugins` makes for the built-in method. -/
def bhyvePlugin : Plugin := { name := "bhyve", method := some "bhyve", parseConfig := none }

/-- The system during a call. -/
structure Sys where
  /-- the data area of a memory pool -/
  cap : Option Nat
  files : FileView
  /-- the files for a child that parses a file with the given owner -/
  filesAs : Stat → FileView
  /-- `fork` for a file, with the given number of pools, succeeds -/
  fork : String → Nat → Bool
  getpwnam : String → Option Passwd
  getpwuid : UInt32 → Option Passwd
  getgrnam : String → Option UInt32
  /-- `is_in_group(user, base, target) == 0` -/
  isInGroup : String → UInt32 → UInt32 → Bool
  /-- `realloc` to the size of a `vm_conf_entry` moves a `vm_conf` -/
  reallocMoves : Bool
  /-- the plugins of a directory that `add_plugin` accepts, in the order of `readdir` -/
  opendir : String → Option (List Plugin)

/-! ## Texts of parameters -/

/-- The text of a token. -/
def tokenText (vars : Variables) : Cftoken → Except CalcStop String
  | .str s => .ok s
  | .var k =>
    match vars.getVar k with
    | none => .error .error
    | some val => .ok val
  | .expr e => do
    let num ← calcExpr vars e
    return toString num

/-- `token_to_string`. -/
def tokenToString (vars : Variables) : Cftokens → Except CalcStop String
  | [] => .ok ""
  | tk :: ts => do
    let s ← tokenText vars tk
    let rest ← tokenToString vars ts
    return s ++ rest

/-! ## A host -/

/-- A text without escapes. -/
def Lexeme.of (text : String) : Lexeme := { text := text, size := text.length + 1 }

/-- The tokens of `.include path;`. -/
def Token.includes (path : String) : List Token := [.include, .str (.of path), .char ';']

/-- The tokens of `key = val;`. -/
def Token.assigns (key val : String) : List Token := [.str (.of key), .char '=', .str (.of val), .char ';']

/-- The tokens of a VM section. -/
def Token.vms (name : String) (body : List Token) : List Token := [.vm, .str (.of name), .char '{'] ++ body ++ [.char '}']

/-- Parameters that a VM needs. -/
def Token.basics : List Token := assigns "ncpu" "1" ++ assigns "memory" "1G" ++ assigns "loader" "uefi"

/-- Files with their owners and tokens, which every process may read. -/
def FileView.of (files : List (String × UInt32 × List Token)) : FileView where
  realpath path := if files.any (·.1 == path) then some path else none
  access _ := true
  stat path := (files.find? (·.1 == path)).map fun f => { regular := true, uid := f.2.1, gid := 0 }
  glob pattern := if files.any (·.1 == pattern) then some [pattern] else none
  fopen path := (files.find? (·.1 == path)).map (·.2.2)

/-- A host with these files, no users and no plugins, where nothing fails. -/
def Sys.of (files : List (String × UInt32 × List Token)) : Sys where
  cap := some defaultCap
  files := .of files
  filesAs _ := .of files
  fork _ _ := true
  getpwnam _ := none
  getpwuid _ := none
  getgrnam _ := none
  isInGroup _ _ _ := false
  reallocMoves := false
  opendir _ := some []

end Bmd
