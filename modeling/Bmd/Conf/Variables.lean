import Mathlib.Data.List.Basic

/-!
# `Conf.Variables` — variables of the configuration (`conf.c`)

A `vartree` has at most one binding a key. Inside a template there are three scopes: the arguments, the variables of
the VM section and the global ones.
-/

namespace Bmd

/-- `struct vartree`: the bindings of a red-black tree. -/
abbrev Vartree := List (String × String)

/-- `get_var0` on an existing tree. -/
def Vartree.getVar0 (vars : Vartree) (k : String) : Option String := List.lookup k vars

/-- `set_var0`. -/
def Vartree.setVar0 (vars : Vartree) (k v : String) : Vartree := (k, v) :: vars.filter (·.1 != k)

/-- `struct variables`. `badFrees` counts the calls of `RB_REMOVE` and `free` on the stack frame of `del_var`.
    `assigned` is a history variable: what `set_var` was called with, the last call first. -/
structure Variables where
  globals : Vartree
  locals : Option Vartree
  args : Option Vartree
  badFrees : Nat
  assigned : List (String × String) := []

namespace Variables

/-- `get_var`: the arguments hide the local variables, and these the global ones. -/
def getVar (vars : Variables) (k : String) : Option String :=
  ((vars.args.bind (·.getVar0 k)).or (vars.locals.bind (·.getVar0 k))).or (vars.globals.getVar0 k)

/-- `del_var(vars->args, k)`. `RB_REMOVE` is given a node on the stack that has no links: it takes it for the root
    and makes its only child, which is none, the new root. The node is then freed. -/
def delVar (vars : Variables) (_k : String) : Variables :=
  { vars with args := some [], badFrees := vars.badFrees + 1 }

/-- `set_var`. -/
def setVar (vars : Variables) (k v : String) : Variables :=
  let vars := if vars.args.isSome then vars.delVar k else vars
  let vars := { vars with assigned := (k, v) :: vars.assigned }
  match vars.locals with
  | some l => { vars with locals := some (l.setVar0 k v) }
  | none => { vars with globals := vars.globals.setVar0 k v }

/-- The variables of a section outside of any VM. -/
def ofGlobals (gv : Vartree) : Variables := { globals := gv, locals := none, args := none, badFrees := 0 }

end Variables

/-- `LOCALBASE`. -/
def localbase : String := "/usr/local"

/-- `init_global_vars`, and the tree that `load_config_file` starts with. -/
def initGlobalVars : Vartree := Vartree.setVar0 [] "LOCALBASE" localbase

end Bmd
