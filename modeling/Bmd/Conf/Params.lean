import Bmd.Conf.System
import Bmd.Conf.VmConf
import Bmd.Lib.Prog
import Bmd.Lib.Stailq

/-!
# `Conf.Params` — the parameters of a VM section (`parser.c`, `conf.c`)

A VM section is executed parameter by parameter on a `vm_conf`. Most parameters store their value; six of them keep
lists, whose heads have a pointer of their own. `.apply` executes the parameters of a template in between.
-/

namespace Bmd

open Lib

/-! ## A configuration in the making -/

/-- The pointers to the last elements of the six lists. -/
structure Tails where
  disks : StailqLast
  isoes : StailqLast
  nets : StailqLast
  passthrues : StailqLast
  bhyveloadEnvs : StailqLast
  bhyveEnvs : StailqLast
  deriving DecidableEq, Repr

/-- `struct vm_conf_entry` while `load_config_file` fills it. `names` is a history variable: the values that
    `parse_name` was given, the last one first. -/
structure Draft where
  conf : VmConf
  vars : Variables
  tails : Tails
  npassthrues : Int
  nbhyveloadEnvs : Int
  nbhyveEnvs : Int
  plData : List (Plugin × NvList)
  names : List String

/-- The signals that end the process: a division trapped, or a null pointer was used. -/
inductive Crash where
  | sigfpe | sigsegv
  deriving DecidableEq, Repr

/-- What the parse functions read from outside. -/
structure ParseEnv where
  sys : Sys
  plugins : List Plugin

/-- A function of `parser_list`; `none` is a negative return value, and the configuration is left as it was. -/
abbrev ParseFn := ParseEnv → Draft → String → Except Crash (Option Draft)

/-! ## The lists -/

/-- A list of a configuration: its queue, and its counter. -/
structure ListField (α : Type) where
  get : Draft → Stailq α
  set : Stailq α → Draft → Draft
  count : Draft → Draft

/-- `STAILQ_INSERT_TAIL` of a new element, and the counter. -/
def addConf {α : Type} (f : ListField α) (x : α) (d : Draft) : Except Crash (Option Draft) :=
  match (f.get d).insertTail x with
  | none => .error .sigsegv
  | some q => .ok (some (f.count (f.set q d)))

/-- The `clear_*` functions: the counter stays. -/
def clearConf {α : Type} (f : ListField α) (d : Draft) : Draft := f.set .init d

def disksField : ListField DiskConf where
  get d := { items := d.conf.disks, last := d.tails.disks }
  set q d := { d with conf := { d.conf with disks := q.items }, tails := { d.tails with disks := q.last } }
  count d := { d with conf := { d.conf with ndisks := d.conf.ndisks + 1 } }

def isoesField : ListField DiskConf where
  get d := { items := d.conf.isoes, last := d.tails.isoes }
  set q d := { d with conf := { d.conf with isoes := q.items }, tails := { d.tails with isoes := q.last } }
  count d := { d with conf := { d.conf with nisoes := d.conf.nisoes + 1 } }

def netsField : ListField NetConf where
  get d := { items := d.conf.nets, last := d.tails.nets }
  set q d := { d with conf := { d.conf with nets := q.items }, tails := { d.tails with nets := q.last } }
  count d := { d with conf := { d.conf with nnets := d.conf.nnets + 1 } }

def passthruesField : ListField String where
  get d := { items := d.conf.passthrues, last := d.tails.passthrues }
  set q d := { d with conf := { d.conf with passthrues := q.items }, tails := { d.tails with passthrues := q.last } }
  count d := { d with npassthrues := d.npassthrues + 1 }

def bhyveloadEnvsField : ListField String where
  get d := { items := d.conf.bhyveloadEnvs, last := d.tails.bhyveloadEnvs }
  set q d :=
    { d with conf := { d.conf with bhyveloadEnvs := q.items }, tails := { d.tails with bhyveloadEnvs := q.last } }
  count d := { d with nbhyveloadEnvs := d.nbhyveloadEnvs + 1 }

def bhyveEnvsField : ListField String where
  get d := { items := d.conf.bhyveEnvs, last := d.tails.bhyveEnvs }
  set q d := { d with conf := { d.conf with bhyveEnvs := q.items }, tails := { d.tails with bhyveEnvs := q.last } }
  count d := { d with nbhyveEnvs := d.nbhyveEnvs + 1 }

/-! ## Values -/

/-- `parse_int`: the `long` is stored in an `int`. -/
def parseInt (val : String) : Option Int := (strtolAll 10 val).map wrap32

/-- `parse_boolean`. -/
def parseBoolean (val : String) : Bool := strcasecmp val "yes" == 0 || strcasecmp val "true" == 0

/-- The type before a colon, if it is one of `types`, and the rest. -/
def typedValue (types : List String) (default val : String) : String × String :=
  (types.findSome? fun p => (afterType p val).map (p, ·)).getD (default, val)

/-- A parse function that stores its value in the configuration. -/
def store (f : String → VmConf → VmConf) : ParseFn := fun _ d val => .ok (some { d with conf := f val d.conf })

/-- A parse function for an integer. -/
def storeInt (f : Int → VmConf → VmConf) : ParseFn := fun _ d val =>
  .ok ((parseInt val).map fun n => { d with conf := f n d.conf })

/-- `if (fb->enable < 0) fb->enable = true;` -/
def Fbuf.enabled (fb : Fbuf) : Fbuf := if fb.enable < 0 then { fb with enable := 1 } else fb

/-- A function on the frame buffer that also enables it. -/
def setFbuf (f : Fbuf → Fbuf) (conf : VmConf) : VmConf := { conf with fbuf := (f conf.fbuf).enabled }

/-! ## The parse functions -/

def parseName : ParseFn := fun _ d val =>
  .ok (some { d with conf := { d.conf with name := val }, vars := d.vars.setVar "NAME" val, names := val :: d.names })

def parseNcpu : ParseFn := storeInt fun n conf => { conf with ncpu := some (toString n) }

/-- The suffixes of a memory size. -/
def memorySuffix : List Char → Bool
  | [] => true
  | [c] => "TtGgMmKk".toList.contains c
  | _ => false

def parseMemory : ParseFn := fun _ d val =>
  if memorySuffix (strtol 10 val.toList).2 then .ok (some { d with conf := { d.conf with memory := some val } })
  else .ok none

def parsePassthru : ParseFn := fun _ d val =>
  if val.toList.all fun c => c == '/' || ('0' ≤ c && c ≤ '9') then addConf passthruesField val d else .ok none

def parseDisk : ParseFn := fun _ d val =>
  let v := typedValue ["ahci-hd", "virtio-blk", "nvme"] "virtio-blk" val
  addConf disksField { type := v.1, path := v.2 } d

def parseIso : ParseFn := fun _ d val =>
  let v := typedValue ["ahci-cd"] "ahci-cd" val
  addConf isoesField { type := v.1, path := v.2 } d

def parseNet : ParseFn := fun _ d val =>
  let v := typedValue ["virtio-net", "e1000"] "virtio-net" val
  addConf netsField { type := v.1, bridge := v.2, tap := none } d

def parseLoadcmd : ParseFn := store fun val conf => { conf with loadcmd := some val }

def parseInstallcmd : ParseFn := store fun val conf => { conf with installcmd := some val }

def parseErrLogfile : ParseFn := store fun val conf => { conf with errLogfile := some val }

def parseLoader : ParseFn := fun _ d val =>
  if ["uefi", "csm", "bhyveload", "grub"].any fun p => strcasecmp val p == 0 then
    .ok (some { d with conf := { d.conf with loader := some val } })
  else .ok none

def parseBhyveloadEnv : ParseFn := fun _ d val =>
  if val.toList.contains '=' then addConf bhyveloadEnvsField val d else .ok none

def parseBhyveloadLoader : ParseFn := store fun val conf => { conf with bhyveloadLoader := some val }

def parseBhyveEnv : ParseFn := fun _ d val =>
  if val.toList.contains '=' then addConf bhyveEnvsField val d else .ok none

def parseLoaderTimeout : ParseFn := storeInt fun n conf => { conf with loaderTimeout := n }

def parseStopTimeout : ParseFn := storeInt fun n conf => { conf with stopTimeout := n }

def parseGrubRunPartition : ParseFn := store fun val conf => { conf with grubRunPartition := some val }

def parseDebugPort : ParseFn := store fun val conf => { conf with debugPort := some val }

/-- The user and the group of an `owner` parameter. -/
def ownerParts (val : String) : String × Option String :=
  match cutAt ':' val with
  | some (user, group) => (user, some group)
  | none => (val, none)

/-- `get_owner`, a `uid_t`. -/
def getOwner (conf : VmConf) : Int := conf.owner % 2 ^ 32

/-- The checks of `parse_owner` on the group; the result is what `set_group` gets. -/
def ownerGroup (sys : Sys) (conf : VmConf) (pwd : Passwd) : Option String → Option (Option UInt32)
  | none => some none
  | some group =>
    match sys.getgrnam group with
    | none => none
    | some gid =>
      if getOwner conf ≠ 0 ∧ !sys.isInGroup pwd.name pwd.gid gid then none else some (some gid)

/-- The settings that `parse_owner` makes. -/
def setOwner (d : Draft) (user : String) (uid : UInt32) (group : Option String) (gid : Option UInt32) : Draft :=
  let d := { d with conf := { d.conf with owner := uid.toNat }, vars := d.vars.setVar "OWNER" user }
  match group, gid with
  | some group, some gid =>
    { d with conf := { d.conf with group := gid.toNat }, vars := d.vars.setVar "GROUP" group }
  | _, _ => d

def parseOwner : ParseFn := fun env d val =>
  let (user, group) := ownerParts val
  match env.sys.getpwnam user with
  | none => .ok none
  | some pwd =>
    if getOwner d.conf ≠ 0 ∧ getOwner d.conf ≠ pwd.uid.toNat then .ok none
    else
      match ownerGroup env.sys d.conf pwd group with
      | none => .ok none
      | some gid => .ok (some (setOwner d user pwd.uid group gid))

/-- The values of `boot`; any other one is `no`. -/
def bootOf (val : String) : Boot :=
  if strcasecmp val "yes" = 0 then .yes
  else if strcasecmp val "true" = 0 then .yes
  else if strcasecmp val "oneshot" = 0 then .oneshot
  else if strcasecmp val "always" = 0 then .always
  else .no

def parseBoot : ParseFn := store fun val conf => { conf with boot := bootOf val }

/-- The values of `hostbridge`. -/
def hostbridgeOf (val : String) : Option HostbridgeType :=
  if strcasecmp val "none" = 0 then some .none
  else if strcasecmp val "standard" = 0 then some .intel
  else if strcasecmp val "intel" = 0 then some .intel
  else if strcasecmp val "amd" = 0 then some .amd
  else none

def parseHostbridge : ParseFn := fun _ d val =>
  .ok ((hostbridgeOf val).map fun t => { d with conf := { d.conf with hostbridge := t } })

/-- `vm_method_exists`. -/
def vmMethodExists (plugins : List Plugin) (name : String) : Bool := plugins.any fun p => p.method == some name

def parseBackend : ParseFn := fun env d val =>
  if vmMethodExists env.plugins val then .ok (some { d with conf := { d.conf with backend := val } }) else .ok none

def parseKeymap : ParseFn := store fun val conf => { conf with keymap := some val }

def parseBootDelay : ParseFn := storeInt fun n conf => { conf with bootDelay := n }

def parseComport : ParseFn := store fun val conf => { conf with comport := some val }

def parseRebootOnChange : ParseFn := store fun val conf => { conf with rebootOnChange := parseBoolean val }

def parseInstall : ParseFn := store fun val conf => { conf with install := parseBoolean val }

def parseGraphics : ParseFn := store fun val conf =>
  { conf with fbuf := { conf.fbuf with enable := (parseBoolean val).toNat } }

def parseGraphicsPort : ParseFn := storeInt fun n => setFbuf ({ · with port := n })

def parseGraphicsListen : ParseFn := store fun val => setFbuf ({ · with ipaddr := some val })

/-- The width and the height. -/
def resolutionOf (val : String) : Option (Int × Int) := do
  let (w, h) ← cutAt 'x' val
  let width ← parseInt w
  let height ← parseInt h
  return (width, height)

def parseGraphicsRes : ParseFn := fun _ d val =>
  .ok ((resolutionOf val).map fun r =>
    { d with conf := setFbuf ({ · with width := r.1, height := r.2 }) d.conf })

def parseGraphicsVga : ParseFn := store fun val => setFbuf ({ · with vgaconf := some val })

/-- Unlike the others, `graphics_wait` does not enable the frame buffer. -/
def parseGraphicsWait : ParseFn := store fun val conf =>
  { conf with fbuf := { conf.fbuf with wait := (parseBoolean val).toNat } }

def parseGraphicsPassword : ParseFn := store fun val => setFbuf ({ · with password := some val })

def parseXhciMouse : ParseFn := store fun val conf => { conf with mouse := parseBoolean val }

def parseWiredMemory : ParseFn := store fun val conf => { conf with wiredMemory := parseBoolean val }

def parseUtctime : ParseFn := store fun val conf => { conf with utctime := parseBoolean val }

/-- `struct parser_entry`. -/
structure ParserEntry where
  name : String
  parse : ParseFn
  clear : Option (Draft → Draft)

/-- `parser_list`. -/
def parserList : List ParserEntry := [
  ⟨"backend", parseBackend, none⟩,
  ⟨"bhyve_env", parseBhyveEnv, some (clearConf bhyveEnvsField)⟩,
  ⟨"bhyveload_env", parseBhyveloadEnv, some (clearConf bhyveloadEnvsField)⟩,
  ⟨"bhyveload_loader", parseBhyveloadLoader, none⟩,
  ⟨"boot", parseBoot, none⟩,
  ⟨"boot_delay", parseBootDelay, none⟩,
  ⟨"comport", parseComport, none⟩,
  ⟨"debug_port", parseDebugPort, none⟩,
  ⟨"disk", parseDisk, some (clearConf disksField)⟩,
  ⟨"err_logfile", parseErrLogfile, none⟩,
  ⟨"graphics", parseGraphics, none⟩,
  ⟨"graphics_listen", parseGraphicsListen, none⟩,
  ⟨"graphics_password", parseGraphicsPassword, none⟩,
  ⟨"graphics_port", parseGraphicsPort, none⟩,
  ⟨"graphics_res", parseGraphicsRes, none⟩,
  ⟨"graphics_vga", parseGraphicsVga, none⟩,
  ⟨"graphics_wait", parseGraphicsWait, none⟩,
  ⟨"grub_run_partition", parseGrubRunPartition, none⟩,
  ⟨"hostbridge", parseHostbridge, none⟩,
  ⟨"install", parseInstall, none⟩,
  ⟨"installcmd", parseInstallcmd, none⟩,
  ⟨"iso", parseIso, some (clearConf isoesField)⟩,
  ⟨"keymap", parseKeymap, none⟩,
  ⟨"loadcmd", parseLoadcmd, none⟩,
  ⟨"loader", parseLoader, none⟩,
  ⟨"loader_timeout", parseLoaderTimeout, none⟩,
  ⟨"memory", parseMemory, none⟩,
  ⟨"name", parseName, none⟩,
  ⟨"ncpu", parseNcpu, none⟩,
  ⟨"network", parseNet, some (clearConf netsField)⟩,
  ⟨"owner", parseOwner, none⟩,
  ⟨"passthru", parsePassthru, some (clearConf passthruesField)⟩,
  ⟨"reboot_on_change", parseRebootOnChange, none⟩,
  ⟨"stop_timeout", parseStopTimeout, none⟩,
  ⟨"utctime", parseUtctime, none⟩,
  ⟨"wired_memory", parseWiredMemory, none⟩,
  ⟨"xhci_mouse", parseXhciMouse, none⟩]

/-- The `bsearch` for a key: the list is sorted by name. -/
def findParser (key : String) : Option ParserEntry := parserList.find? fun e => strcasecmp key e.name == 0

/-! ## Plugins -/

/-- `call_plugin_parser`, with the plugins' data as they leave it. -/
def callPluginParser (key val : String) : List (Plugin × NvList) → Int × List (Plugin × NvList)
  | [] => (1, [])
  | (p, conf) :: rest =>
    match p.parseConfig with
    | none =>
      let r := callPluginParser key val rest
      (r.1, (p, conf) :: r.2)
    | some parse =>
      let (rc, conf) := parse conf key val
      if rc ≤ 0 then (rc, (p, conf) :: rest)
      else
        let r := callPluginParser key val rest
        (r.1, (p, conf) :: r.2)

/-! ## Executing a section -/

/-- A value that was given to a key of `parser_list`, with the configuration at that moment. -/
structure Given where
  key : String
  text : String
  accepted : Bool
  before : VmConf

/-- The configuration, and the templates with their marks. Three history variables record the names of the templates
    that `.apply` has found, of those whose parameters were executed, and the values of the keys, newest first. -/
structure Work where
  draft : Draft
  templates : List Cfsection
  reached : List String
  executed : List String
  values : List Given := []

/-- Steps of `vm_conf_set_params`. -/
abbrev Setting := Lib.Prog Crash Work

def modDraft (f : Draft → Draft) : Setting Unit := modify fun w => { w with draft := f w.draft }

/-- The value of tokens in the current scope; `none` when `token_to_string` returns `NULL`. -/
def valueOf (ts : Cftokens) : Setting (Option String) := do
  match tokenToString (← get).draft.vars ts with
  | .ok val => return some val
  | .error .error => return none
  | .error .trap => throw .sigfpe

/-- The record of a value. -/
def Draft.given (d : Draft) (e : ParserEntry) (val : String) (accepted : Bool) : Given :=
  { key := e.name, text := val, accepted := accepted, before := d.conf }

/-- The work with a value in its history. -/
def Work.given (w : Work) (e : ParserEntry) (val : String) (accepted : Bool) : Work :=
  { w with values := w.draft.given e val accepted :: w.values }

/-- A value of a key of `parser_list`. -/
def setValue (env : ParseEnv) (e : ParserEntry) (val : String) : Setting Unit := do
  match e.parse env (← get).draft val with
  | .error crash => throw crash
  | .ok none => modify (·.given e val false)
  | .ok (some d) => modify fun w => { w.given e val true with draft := d }

/-- A value of another key. -/
def setPluginValue (key val : String) : Setting Unit := modDraft fun d =>
  { d with plData := (callPluginParser key val d.plData).2 }

/-- One value of a parameter. -/
def setParamValue (env : ParseEnv) (key : String) (e : Option ParserEntry) (vl : Cfvalue) : Setting Unit := do
  match ← valueOf vl.tokens with
  | none => pure ()
  | some val =>
    match e with
    | some e => setValue env e val
    | none => setPluginValue key val

/-- The loop over the values of a parameter. -/
def setValues (env : ParseEnv) (key : String) (e : Option ParserEntry) : List Cfvalue → Setting Unit
  | [] => pure ()
  | vl :: rest => do
    setParamValue env key e vl
    setValues env key e rest

/-- `lookup_template`. A template without a name makes `strcmp` use a null pointer. -/
def lookupTemplate (name : String) : List Cfsection → Except Crash (Option Cfsection)
  | [] => .ok none
  | tp :: rest =>
    match tp.name with
    | none => .error .sigsegv
    | some n => if n = name then .ok (some tp) else lookupTemplate name rest

/-- `tp->applied++` for the template that `lookup_template` finds. -/
def markApplied (name : String) : List Cfsection → List Cfsection
  | [] => []
  | tp :: rest =>
    if tp.name = some name then { tp with applied := tp.applied + 1 } :: rest else tp :: markApplied name rest

/-- `set_var0(args, def->name, argval ? argval : "")`. -/
def Vartree.bindArg (args : Vartree) (name : Option String) (val : String) : Vartree :=
  match name with
  | none => args
  | some name => args.setVar0 name val

/-- The loop of `parse_apply` over the arguments. -/
def bindArgs (args : Vartree) : List Cfargdef → List Cftokens → Setting Vartree
  | [], _ => return args
  | d :: defs, given => do
    let val ← valueOf (given.head?.getD d.tokens)
    bindArgs (args.bindArg d.name (val.getD "")) defs given.tail

/-- `vars->args = args`. -/
def Draft.withArgs (d : Draft) (args : Option Vartree) : Draft := { d with vars := { d.vars with args := args } }

def setArgs (args : Option Vartree) : Setting Unit := modDraft (·.withArgs args)

/-- `parse_apply` for a template that is not applied yet; `exec` executes its parameters. -/
def applyTemplate (exec : Cfsection → Setting Unit) (name : String) (tp : Cfsection) (given : List Cftokens) :
    Setting Unit := do
  let args ← bindArgs [] tp.argdefs given
  modify fun w => { w with templates := markApplied name w.templates, executed := name :: w.executed }
  let oldArgs := (← get).draft.vars.args
  setArgs (some args)
  exec tp
  setArgs oldArgs

/-- `parse_apply`. -/
def parseApply (exec : Cfsection → Setting Unit) (vl : Cfvalue) : Setting Unit := do
  match ← valueOf vl.tokens with
  | none => pure ()
  | some name =>
    match lookupTemplate name (← get).templates with
    | .error crash => throw crash
    | .ok none => pure ()
    | .ok (some tp) => do
      modify fun w => { w with reached := name :: w.reached }
      if tp.applied ≠ 0 then
        pure ()
      else
        applyTemplate exec name tp vl.args

/-- The loop over the targets of `.apply`. -/
def parseApplies (exec : Cfsection → Setting Unit) : List Cfvalue → Setting Unit
  | [] => pure ()
  | vl :: rest => do
    parseApply exec vl
    parseApplies exec rest

/-- An assignment to a variable. -/
def assignVar (k : String) : List Cfvalue → Setting Unit
  | [] => throw .sigsegv
  | vl :: _ => do
    match ← valueOf vl.tokens with
    | none => pure ()
    | some val => modDraft fun d => { d with vars := d.vars.setVar k val }

/-- `if (parser && parser->clear != NULL && pr->operator == 0) (*parser->clear)(conf);` -/
def clearFirst (e : Option ParserEntry) (operator : Int) : Setting Unit :=
  match e.bind (·.clear) with
  | some clear => if operator = 0 then modDraft clear else pure ()
  | none => pure ()

/-- A parameter. -/
def setParam (env : ParseEnv) (exec : Cfsection → Setting Unit) (pr : Cfparam) : Setting Unit :=
  match pr.key with
  | none => throw .sigsegv
  | some (.var k) => assignVar k pr.vals
  | some (.str key) =>
    if strcasecmp key ".apply" = 0 then
      parseApplies exec pr.vals
    else do
      let e := findParser key
      clearFirst e pr.operator
      setValues env key e pr.vals

/-- The loop over the parameters. -/
def setParams (env : ParseEnv) (exec : Cfsection → Setting Unit) : List Cfparam → Setting Unit
  | [] => pure ()
  | pr :: rest => do
    setParam env exec pr
    setParams env exec rest

/-- `vm_conf_set_params`, where templates are nested at most `depth - 1` times. -/
def vmConfSetParams (env : ParseEnv) : Nat → Cfsection → Setting Unit
  | 0, _ => pure ()
  | depth + 1, sc => setParams env (vmConfSetParams env depth) sc.params

end Bmd
