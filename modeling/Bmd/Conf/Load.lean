import Bmd.Conf.Grammar
import Bmd.Conf.Params

/-!
# `Conf.Load` — `load_config_file`

The main file and the files it includes are parsed one after the other, each by a child process. When a child runs out
of pool memory its work is undone, a pool is added and the file is parsed once more. Then the parent executes the
global sections and the VM sections.

The functions with a `fuel` return `none` when it does not suffice for the loop that they contain.
-/

namespace Bmd

open Lib

/-! ## The process -/

/-- `struct global_conf`, except `foreground`. -/
structure GlobalConf where
  configFile : Option String
  pluginDir : Option String
  varsDir : Option String
  pidPath : Option String
  cmdSockPath : Option String
  unixDomainSocketMode : Option String
  nmdmOffset : Int
  /-- the text that `nmdmOffset` was read from -/
  nmdmOffsetText : Option String := none
  deriving DecidableEq, Repr

/-- `DEFAULT_NMDM_OFFSET`. -/
def defaultNmdmOffset : Int := 200

/-- `gl_conf0`. -/
def glConf0 : GlobalConf :=
  { configFile := some (localbase ++ "/etc/bmd.conf"), pluginDir := some (localbase ++ "/libexec/bmd"),
    varsDir := some (localbase ++ "/var/cache/bmd"), pidPath := some "/var/run/bmd.pid",
    cmdSockPath := some "/var/run/bmd.sock", unixDomainSocketMode := none, nmdmOffset := defaultNmdmOffset }

/-- The `struct global_conf` that `load_config_file` fills. -/
def GlobalConf.zero : GlobalConf :=
  { configFile := none, pluginDir := none, varsDir := none, pidPath := none, cmdSockPath := none,
    unixDomainSocketMode := none, nmdmOffset := 0 }

/-- `merge_global_conf`. -/
def mergeGlobalConf (gl gc : GlobalConf) : GlobalConf :=
  { configFile := gc.configFile.or gl.configFile, pluginDir := gc.pluginDir.or gl.pluginDir,
    varsDir := gc.varsDir.or gl.varsDir, pidPath := gc.pidPath.or gl.pidPath,
    cmdSockPath := gc.cmdSockPath.or gl.cmdSockPath,
    unixDomainSocketMode := gc.unixDomainSocketMode.or gl.unixDomainSocketMode,
    nmdmOffset := if gc.nmdmOffset ≠ 0 then gc.nmdmOffset else gl.nmdmOffset }

/-- `id_list` and `lastid`, an `unsigned int`. -/
structure IdTable where
  list : List (String × Nat)
  lastid : Nat
  deriving DecidableEq, Repr

/-- `get_id`. -/
def IdTable.getId (t : IdTable) (name : String) : Nat × IdTable :=
  match t.list.lookup name with
  | some id => (id, t)
  | none => (t.lastid, { list := (name, t.lastid) :: t.list, lastid := (t.lastid + 1) % 2 ^ 32 })

/-- What a process keeps from one call of `load_config_file` to the next: `global_vars`, the table of identifiers,
    `gl_conf`, `plugin_list`, and the counter `loaded` of `load_plugins`. -/
structure Process where
  globalVars : Vartree
  ids : IdTable
  glConf : GlobalConf
  pluginList : List Plugin
  loaded : Nat

/-- A process after `init_gl_conf` and `init_global_vars`; the option `-f` names another file. -/
def Process.init (configFile : String) : Process :=
  { globalVars := initGlobalVars, ids := { list := [], lastid := 0 }, glConf := { glConf0 with configFile := some configFile },
    pluginList := [], loaded := 0 }

/-! ## Parsing -/

/-- `*pctxt = *pctxt_snapshot` and the `END_UP`s: the lists end again with the elements they had. `none`: one of them
    has no last element, and its link is written through a null pointer. -/
def endUp (snapshot cur : Pctxt) : Option Pctxt :=
  if snapshot.cfglobals.isEmpty || snapshot.cftemplates.isEmpty || snapshot.cfvms.isEmpty || snapshot.cffiles.isEmpty then
    none
  else
    some { cfglobals := cur.cfglobals.take snapshot.cfglobals.length
           cftemplates := cur.cftemplates.take snapshot.cftemplates.length
           cfvms := cur.cfvms.take snapshot.cfvms.length
           cffiles := cur.cffiles.take snapshot.cffiles.length }

/-- What the loops of `load_config_file` over the files come to. -/
inductive Parsed where
  | done (s : Shared)
  | fail
  | crash
  deriving DecidableEq, Repr

/-- `parse` up to `goto retry`: how it ends, or the shared memory with which it tries again. -/
def attempt (sys : Sys) (gv : Vartree) (file : String) (s : Shared) : Parsed ⊕ Shared :=
  let s := { s with mpools := s.mpools.mpoolSnapshot }
  if !sys.fork file s.mpools.pools.length then .inl .fail
  else
    match parseChild sys file gv s with
    | (.signal, _) => .inl .fail
    | (.status n, c) =>
      if n = 0 then .inl (.done c)
      else
        match c.mpools.mpoolGetError with
        | .none | .fatal => .inl .fail
        | .alloc =>
          match endUp s.pctxt c.pctxt with
          | none => .inl .crash
          | some pctxt => .inr { mpools := c.mpools.mpoolRollback.mpoolExpand, pctxt := pctxt }

/-- `parse`. -/
def parse (sys : Sys) (gv : Vartree) (file : String) : Nat → Shared → Option Parsed
  | 0, _ => none
  | fuel + 1, s =>
    match attempt sys gv file s with
    | .inl r => some r
    | .inr s => parse sys gv file fuel s

/-- `STAILQ_FOREACH (inf, &pctxt->cffiles, next) if (parse(inf) < 0) goto err;` from the file with index `i`. -/
def parseFiles (sys : Sys) (gv : Vartree) (retries : Nat) : Nat → Nat → Shared → Option Parsed
  | 0, _, _ => none
  | fuel + 1, i, s =>
    match s.pctxt.cffiles.drop i with
    | [] => some (.done s)
    | file :: _ =>
      match parse sys gv file retries s with
      | some (.done s) => parseFiles sys gv retries fuel (i + 1) s
      | r => r

/-- `mpool_init` and the two contexts. -/
def initShared (sys : Sys) : Option Shared :=
  let s : Shared := { mpools := .mpoolInit sys.cap, pctxt := .empty }
  let r := s.alloc Obj.parserContext.size
  let r' := r.2.alloc Obj.parserContext.size
  if r.1 && r'.1 then some r'.2 else none

/-- Everything that `load_config_file` reads from files. -/
def readFiles (sys : Sys) (gv : Vartree) (fuel : Nat) (configFile : Option String) : Option Parsed :=
  match initShared sys with
  | none => some .fail
  | some s =>
    match configFile with
    | none => parseFiles sys gv fuel fuel 0 s
    | some fn =>
      let r := pushFile sys.files fn s
      if r.1 < 0 then some .fail else parseFiles sys gv fuel fuel 0 r.2

/-- `check_duplicate`: only templates are looked at. -/
def checkDuplicate (p : Pctxt) : Bool := p.cftemplates.any fun sc => sc.duplicate != 0

/-! ## Global sections -/

/-- The fields of `struct global_conf` that a key sets. -/
inductive GlobalKey where
  | cmdSocketMode | cmdSocketPath | varsDirectory | nmdmOffset | pidFile | pluginDirectory
  deriving DecidableEq, Repr

/-- The `switch` of `gl_conf_set_params`. -/
def globalKey (key : String) : Option GlobalKey :=
  if key = "cmd_socket_mode" then some .cmdSocketMode
  else if key = "cmd_socket_path" then some .cmdSocketPath
  else if key = "vars_directory" then some .varsDirectory
  else if key = "nmdm_offset" then some .nmdmOffset
  else if key = "pid_file" then some .pidFile
  else if key = "plugin_directory" then some .pluginDirectory
  else none

/-- `gl_conf_set_params` on its way: the configuration, the local variable `nmdm_offset_s`, and the variables. -/
structure GlobalWork where
  conf : GlobalConf
  nmdmOffsetS : Option String
  vars : Variables

/-- `if (*t == NULL) *t = val;` -/
def GlobalWork.setKey (w : GlobalWork) (val : String) : GlobalKey → GlobalWork
  | .cmdSocketMode => { w with conf := { w.conf with unixDomainSocketMode := w.conf.unixDomainSocketMode.or (some val) } }
  | .cmdSocketPath => { w with conf := { w.conf with cmdSockPath := w.conf.cmdSockPath.or (some val) } }
  | .varsDirectory => { w with conf := { w.conf with varsDir := w.conf.varsDir.or (some val) } }
  | .nmdmOffset => { w with nmdmOffsetS := w.nmdmOffsetS.or (some val) }
  | .pidFile => { w with conf := { w.conf with pidPath := w.conf.pidPath.or (some val) } }
  | .pluginDirectory => { w with conf := { w.conf with pluginDir := w.conf.pluginDir.or (some val) } }

/-- The loop over the values of a key. -/
def setGlobalValues (k : GlobalKey) : List Cfvalue → GlobalWork → Except Crash GlobalWork
  | [], w => .ok w
  | vl :: rest, w =>
    match tokenToString w.vars vl.tokens with
    | .error .trap => .error .sigfpe
    | .error .error => setGlobalValues k rest w
    | .ok val => setGlobalValues k rest (w.setKey val k)

/-- A parameter of a global section. -/
def setGlobalParam (pr : Cfparam) (w : GlobalWork) : Except Crash GlobalWork :=
  match pr.key, pr.vals with
  | none, _ => .error .sigsegv
  | some (.var _), [] => .error .sigsegv
  | some (.var k), vl :: _ =>
    match tokenToString w.vars vl.tokens with
    | .error .trap => .error .sigfpe
    | .error .error => .ok w
    | .ok val => .ok { w with vars := w.vars.setVar k val }
  | some (.str key), vals =>
    match globalKey key with
    | none => .ok w
    | some k => setGlobalValues k vals w

/-- The loop over the parameters. -/
def setGlobalParams : List Cfparam → GlobalWork → Except Crash GlobalWork
  | [], w => .ok w
  | pr :: rest, w => do
    let w ← setGlobalParam pr w
    setGlobalParams rest w

/-- `gc->nmdm_offset = strtol(nmdm_offset_s, &p, 0)`, with the default for a text that is no number. -/
def nmdmOffsetOf (gc : GlobalConf) : Option String → GlobalConf
  | none => gc
  | some text =>
    { gc with nmdmOffset := ((strtolAll 0 text).map wrap32).getD defaultNmdmOffset, nmdmOffsetText := some text }

/-- `gl_conf_set_params`. -/
def glConfSetParams (gc : GlobalConf) (vars : Variables) (sc : Cfsection) : Except Crash (GlobalConf × Variables) := do
  let w ← setGlobalParams sc.params { conf := gc, nmdmOffsetS := none, vars := vars }
  return (nmdmOffsetOf w.conf w.nmdmOffsetS, w.vars)

/-- The loop over the global sections: those in files of other users are not executed. -/
def setGlobals : List Cfsection → GlobalConf → Variables → Except Crash (GlobalConf × Variables)
  | [], gc, vars => .ok (gc, vars)
  | sc :: rest, gc, vars =>
    if sc.owner = 0 then do
      let (gc, vars) ← glConfSetParams gc vars sc
      setGlobals rest gc vars
    else
      setGlobals rest gc vars

/-! ## Plugins -/

/-- `load_plugins`. -/
def loadPlugins (sys : Sys) (dir : Option String) (p : Process) : Process :=
  if p.loaded ≠ 0 then p
  else
    let p := { p with pluginList := bhyvePlugin :: p.pluginList }
    match dir.bind sys.opendir with
    | none => p
    | some added => { p with pluginList := added.reverse ++ p.pluginList, loaded := added.length }

/-- `create_plugin_data`. -/
def createPluginData (plugins : List Plugin) : List (Plugin × NvList) := plugins.reverse.map fun p => (p, .nil)

/-! ## VM sections -/

/-- `struct vm_conf_entry` as `load_config_file` leaves it, with the name of its section, the predefined value of `ID`
    and the history of its names. -/
structure ConfEnt where
  conf : VmConf
  locals : Vartree
  plData : List (Plugin × NvList)
  sectionName : String
  id : Nat
  names : List String

/-- `create_vm_conf`, and what `load_config_file` sets before the parameters. -/
def newDraft (sys : Sys) (plugins : List Plugin) (gv : Vartree) (name : String) (id : Nat) (owner : UInt32) : Draft :=
  let locals : Vartree := Vartree.setVar0 (Vartree.setVar0 [] "NAME" name) "ID" (toString id)
  let vars : Variables := { globals := gv, locals := some locals, args := none, badFrees := 0 }
  let vars := match sys.getpwuid owner with
    | none => vars
    | some pw => vars.setVar "OWNER" (cstr pw.name)
  { conf := { createVmConf name with owner := owner.toNat }
    vars := vars.setVar "GROUP" ""
    tails := { disks := .own, isoes := .own, nets := .own, passthrues := .null, bhyveloadEnvs := .own, bhyveEnvs := .own }
    npassthrues := 0, nbhyveloadEnvs := 0, nbhyveEnvs := 0
    plData := createPluginData plugins
    names := [] }

/-- The lists of a configuration that `realloc` has moved: all are empty then. -/
def Draft.moved (d : Draft) : Draft :=
  { d with tails :=
    { disks := (disksField.get d).moved.last, isoes := (isoesField.get d).moved.last
      nets := (netsField.get d).moved.last, passthrues := (passthruesField.get d).moved.last
      bhyveloadEnvs := (bhyveloadEnvsField.get d).moved.last, bhyveEnvs := (bhyveEnvsField.get d).moved.last } }

/-- `clear_applied`. -/
def clearApplied (templates : List Cfsection) : List Cfsection := templates.map ({ · with applied := 0 })

/-- The entry that `load_config_file` begins a section with. -/
def beginDraft (env : ParseEnv) (gv : Vartree) (id : Nat) (name : String) (owner : UInt32) : Draft :=
  let d := newDraft env.sys env.plugins gv name id owner
  if env.sys.reallocMoves then d.moved else d

/-- What is executed of a VM section: the configuration before `finalize_vm_conf`, and the templates. -/
def execSection (env : ParseEnv) (gv : Vartree) (templates : List Cfsection) (id : Nat) (name : String) (sc : Cfsection) :
    Except Crash (Draft × List Cfsection) := do
  let r ← vmConfSetParams env (templates.length + 1) sc
    { draft := beginDraft env gv id name sc.owner, templates := clearApplied templates, reached := [], executed := [] }
  return (r.2.draft, r.2.templates)

/-- The entry for a section, if it passes `check_conf`. -/
def confEntOf (name : String) (id : Nat) (d : Draft) : Option ConfEnt :=
  let conf := finalizeVmConf d.conf
  if checkConf conf then
    some { conf := conf, locals := d.vars.locals.getD [], plData := d.plData, sectionName := name, id := id,
           names := d.names }
  else none

/-- The loop over the VM sections; an entry goes to the head of the list. -/
def loadVms (env : ParseEnv) (gv : Vartree) :
    List Cfsection → List Cfsection → IdTable → List ConfEnt → Except Crash (IdTable × List ConfEnt)
  | [], _, ids, list => .ok (ids, list)
  | sc :: rest, templates, ids, list =>
    match sc.name with
    | none => .error .sigsegv
    | some name => do
      let r := ids.getId name
      let (d, templates) ← execSection env gv templates r.1 name sc
      loadVms env gv rest templates r.2 ((confEntOf name r.1 d).toList ++ list)

/-! ## `load_config_file` -/

/-- What a call leaves: the files it read, the global configuration of the files, and the list of configurations. -/
structure Loaded where
  files : List String
  globalConf : GlobalConf
  list : List ConfEnt

/-- How a call ends. -/
inductive Outcome where
  /-- the process is killed by a signal -/
  | crash
  /-- it returns -1; the process is as it was -/
  | fail
  /-- it returns 0 -/
  | ok (p : Process) (r : Loaded)

/-- The part behind the parsing, for a call with a list. -/
def loadSections (sys : Sys) (p : Process) (ctx : Pctxt) (gc : GlobalConf) (gv : Vartree) :
    Except Crash (Process × List ConfEnt) := do
  let p := loadPlugins sys (gc.pluginDir.or p.glConf.pluginDir) p
  let (ids, list) ← loadVms { sys := sys, plugins := p.pluginList } gv ctx.cfvms ctx.cftemplates p.ids []
  return ({ p with ids := ids }, list)

/-- The part of `load_config_file` behind the parsing. `list`: it is called with a list; `update`: it updates `gl_conf`. -/
def finishLoadConfig (sys : Sys) (p : Process) (list update : Bool) (ctx : Pctxt) : Outcome :=
  if checkDuplicate ctx then .fail
  else
    match setGlobals ctx.cfglobals .zero (.ofGlobals initGlobalVars) with
    | .error _ => .crash
    | .ok (gc, vars) =>
      match if list then loadSections sys p ctx gc vars.globals else .ok (p, []) with
      | .error _ => .crash
      | .ok (p, ents) =>
        .ok { p with globalVars := vars.globals, glConf := if update then mergeGlobalConf p.glConf gc else p.glConf }
          { files := ctx.cffiles, globalConf := gc, list := ents }

/-- `load_config_file`. -/
def loadConfig (sys : Sys) (fuel : Nat) (list update : Bool) (p : Process) : Option Outcome :=
  match readFiles sys p.globalVars fuel p.glConf.configFile with
  | none => none
  | some .crash => some .crash
  | some .fail => some .fail
  | some (.done s) => some (finishLoadConfig sys p list update s.pctxt)

end Bmd
