import Bmd.Daemon.Reload
import Bmd.Server.SockBuf

/-!
# `Server.Command` — the commands of clients (`server.c`)

A request is an nvlist with the string elements `command` and `name`; the response is an nvlist with the
element `error` and, on failure, `reason`. libnv aborts the process when a string element is missing.
-/

namespace Bmd

/-! ## Configuration of a VM to be booted -/

/-- The loop of `search_and_replace_vm_conf`: the last entry with the name; the others are freed. -/
def searchConf (name : String) (ret : Option Addr) : List Addr → Prog (Option Addr)
  | [] => return ret
  | c :: rest => do
    if ((← get).confOf c).name = name then
      searchConf name (some c) rest
    else
      freeVmConfEntry c
      searchConf name ret rest

/-- The part of `search_and_replace_vm_conf` that installs the configuration it found. -/
def replaceVmConf (a c : Addr) : Prog Unit := do
  let s ← get
  let old := (s.vmOf a).conf
  if s.confChanged c old = true then
    confListRemove old
    modify fun s => { s with vmConfList := c :: s.vmConfList }
    freeVmConfEntry old
    modVm a ({ · with conf := c })
  else
    freeVmConfEntry c

/-- `search_and_replace_vm_conf`. -/
def searchAndReplaceVmConf (a : Addr) (load : Option (List LoadedConf)) : Prog Int := do
  let name := ((← get).vmConf a).name
  match ← loadConfigFile load with
  | none => return -1
  | some list =>
    match ← searchConf name none list with
    | none => return -1
    | some c =>
      replaceVmConf a c
      return 0

/-! ## Console -/

/-- `get_peer_comport`, without the copy. -/
def getPeerComport (comport : Option String) : Option String :=
  match comport with
  | none => none
  | some com =>
    let cs := com.toList
    if cs.length < 11 then none
    else match cs.getLast? with
      | some 'A' => some (String.ofList (cs.dropLast ++ ['B']))
      | some 'B' => some (String.ofList (cs.dropLast ++ ['A']))
      | _ => some com

/-- The loop of `chown_comport`, with the number of tries that are left. -/
def chownDevice (env : Env) (fn : String) (uid : Int) : Nat → Prog Unit
  | 0 => return ()
  | tries + 1 => do
    if !(← ask env.stat) then
      chownDevice env fn uid tries
    else if !(← ask env.chown) then
      chownDevice env fn uid tries
    else
      modify fun s => { s with comOwners := (fn, uid) :: s.comOwners }

/-- `chown_comport`. -/
def chownComport (env : Env) (comport : Option String) (ucred : Xucred) : Prog Unit := do
  match getPeerComport comport with
  | none => return ()
  | some fn =>
    if !(← ask env.malloc) then
      return ()
    chownDevice env fn ucred.uid 5

/-- `open_comport`: the descriptor, or `-1`. -/
def openComport (env : Env) (comport : Option String) : Prog Fd := do
  match getPeerComport comport with
  | none => return -1
  | some _ =>
    if !(← ask env.malloc) then
      return -1
    if !(← ask env.openFile) then
      return -1
    newFd env

/-- `FD_KEY`. -/
def fdKey : String := "_file_descriptor_"

/-- `if ((fd = open_comport(comport)) >= 0) nvlist_add_number(res, FD_KEY, fd);` -/
def addComport (env : Env) (comport : Option String) (res : NvList) : Prog NvList := do
  let fd ← openComport env comport
  return if 0 ≤ fd then res.add fdKey (.number fd.toNat) else res

/-! ## Access -/

/-- `check_owner(vm_ent, ucred) == 0`. -/
def checkOwner (conf : VmConf) (ucred : Xucred) : Bool :=
  ucred.uid == 0 || ucred.uid == conf.owner % 2 ^ 32 ||
    conf.group != -1 && ucred.groups.any (· == conf.group % 2 ^ 32)

/-- `nvlist_get_string(nv, key)`. -/
def nvlistGetString (nv : NvList) (key : String) : Prog String :=
  match nv.getString? key with
  | none => throw .abort
  | some v => return v

/-- The VM a request names, if the client may control it. -/
def requestedVm (nv : NvList) (ucred : Xucred) : Prog (Option VmEntry) := do
  let name ← nvlistGetString nv "name"
  let s ← get
  return (s.lookupVmByName name).filter fun v => checkOwner (s.confOf v.conf) ucred

/-- A response without an error. -/
def okResponse : NvList := NvList.nil.add "error" (.bool false)

/-- A response with an error. -/
def errorResponse (reason : String) : NvList :=
  (NvList.nil.add "error" (.bool true)).add "reason" (.string reason)

/-! ## Commands -/

/-- The end of `boot0_command` for a VM that was started. -/
def bootResponse (env : Env) (a : Addr) : Prog NvList := do
  let s ← get
  let comport := ((s.vmOf a).assignedComport).or (s.vmConf a).comport
  addComport env comport okResponse

/-- `if (style == 1) VM_CONF(vm_ent)->install = true;` -/
def applyStyle (a : Addr) (install : Bool) : Prog Unit := do
  let c := ((← get).vmOf a).conf
  whenever install (setInstall c true)

/-- `boot0_command` for a VM the client may control. -/
def bootVm (env : Env) (v : VmEntry) (install : Bool) (load : Option (List LoadedConf)) : Prog NvList := do
  note (.boot v.addr)
  if v.state ≠ .terminate then
    return errorResponse "already running"
  if (← searchAndReplaceVmConf v.addr load) < 0 then
    return errorResponse "failed to load config file"
  applyStyle v.addr install
  if (← startVirtualMachine env v.addr) < 0 then
    return errorResponse "failed to start"
  bootResponse env v.addr

/-- `boot0_command`; the styles are boot and install. -/
def boot0Command (env : Env) (nv : NvList) (install : Bool) (ucred : Xucred)
    (load : Option (List LoadedConf)) : Prog NvList := do
  match ← requestedVm nv ucred with
  | none => return errorResponse "VM not found"
  | some v => bootVm env v install load

/-- `showcomport_command`. -/
def showcomportCommand (env : Env) (nv : NvList) (ucred : Xucred) : Prog NvList := do
  match ← requestedVm nv ucred with
  | none => return errorResponse "VM not found"
  | some v =>
    let comport := v.assignedComport.or ((← get).confOf v.conf).comport
    let add (res : NvList) : NvList :=
      (res.add "comport" (.string (comport.getD "(null)"))).add "error" (.bool false)
    if v.state = .load ∨ v.state = .run then
      chownComport env comport ucred
      return add (← addComport env comport .nil)
    else
      return add .nil

/-- The text of `showvgaport_command`, cut to the size of its buffer. -/
def vgaport (fb : Fbuf) : String :=
  String.ofList ((fb.ipaddr.getD "(null)" ++ " " ++ toString fb.port).toList.take 127)

/-- `showvgaport_command`. -/
def showvgaportCommand (nv : NvList) (ucred : Xucred) : Prog NvList := do
  match ← requestedVm nv ucred with
  | none => return errorResponse "VM not found"
  | some v =>
    let fb := ((← get).confOf v.conf).fbuf
    let text := if fb.enable ≠ 0 then vgaport fb else "(disabled)"
    return (NvList.nil.add "vgaport" (.string text)).add "error" (.bool false)

/-- `state_string`. -/
def stateString : State → String
  | .terminate => "STOP"
  | .load => "LOAD"
  | .run => "RUN"
  | .stop => "TERMINATING"
  | .remove => "TERMINATING"
  | .restart => "REBOOTING"

/-- The element of `list_command` for a VM. `check_conf` admits no configuration without `ncpu` or `memory`. -/
def listEntry (env : Env) (conf : VmConf) (st : State) : NvList :=
  (((((NvList.nil.add "name" (.string conf.name)).add "ncpu" (.string (conf.ncpu.getD ""))).add
    "memory" (.string (conf.memory.getD ""))).add
    "loader" (.string (conf.loader.getD conf.backend))).add
    "state" (.string (stateString st))).add
    "owner" (.string ((env.getpwuid conf.owner).getD "nobody"))

/-- `list_command`. -/
def listCommand (env : Env) (ucred : Xucred) : Prog NvList := do
  let s ← get
  let vms := s.vmList.filter fun v => checkOwner (s.confOf v.conf) ucred
  if vms.isEmpty then
    return okResponse
  if !(← ask env.malloc) then
    return errorResponse "cannot allocate memory"
  let list := vms.map fun v => listEntry env (s.confOf v.conf) v.state
  return (NvList.nil.add "vm_list" (.nvlistArray (.ofList list))).add "error" (.bool false)

/-- The argument `how` of `vm_down_command`. -/
inductive DownHow where
  | shutdown | reset | poweroff
  deriving DecidableEq, Repr

/-- `vm_down_command` for a VM in `LOAD` or `RUN`. -/
def downVm (env : Env) (v : VmEntry) (conf : VmConf) : DownHow → Prog Unit
  | .shutdown => do
    requestStop env v.addr conf.stopTimeout
    setState v.addr .stop
  | .reset => resetBhyve env v.addr
  | .poweroff => do
    poweroffBhyve env v.addr
    setState v.addr .stop

/-- A shutdown or poweroff that is answered with success is recorded. -/
def noteDown (a : Addr) (st : State) (how : DownHow) : Prog Unit :=
  whenever (how != .reset) (modify fun s => s.note (.down a st (s.timersOf a)))

/-- `vm_down_command`. -/
def vmDownCommand (env : Env) (nv : NvList) (how : DownHow) (ucred : Xucred) : Prog NvList := do
  match ← requestedVm nv ucred with
  | none => return errorResponse "VM not found"
  | some v =>
    noteDown v.addr v.state how
    if v.state = .load ∨ v.state = .run then
      downVm env v ((← get).confOf v.conf) how
      return okResponse
    else
      return okResponse

/-! ## Dispatch -/

/-- The functions in `command_list`. -/
inductive Command where
  | boot | install | list | poweroff | reset | showcomport | showvgaport | shutdown
  deriving DecidableEq, Repr

/-- `command_list`. -/
def commandList : List (String × Command) :=
  [("boot", .boot), ("install", .install), ("list", .list), ("poweroff", .poweroff), ("reset", .reset),
   ("showcomport", .showcomport), ("showvgaport", .showvgaport), ("shutdown", .shutdown)]

/-- `get_command_function`. The table is sorted, so `bsearch` finds what is in it. -/
def getCommandFunction (name : String) : Option Command :=
  (commandList.find? fun e => strcasecmp name e.1 == 0).map (·.2)

/-- The call of a command function. -/
def runCommand (env : Env) (nv : NvList) (ucred : Xucred) (load : Option (List LoadedConf)) :
    Command → Prog NvList
  | .boot => boot0Command env nv false ucred load
  | .install => boot0Command env nv true ucred load
  | .list => listCommand env ucred
  | .poweroff => vmDownCommand env nv .poweroff ucred
  | .reset => vmDownCommand env nv .reset ucred
  | .showcomport => showcomportCommand env nv ucred
  | .showvgaport => showvgaportCommand nv ucred
  | .shutdown => vmDownCommand env nv .shutdown ucred

/-- `sb->res_buf = nvlist_pack(res, &sb->res_size); sb->res_bytes = 0;` -/
def SockBuf.setResponse (sb : SockBuf) (bytes : List UInt8) : SockBuf :=
  { sb with resBuf := bytes, resSize := bytes.length, resBytes := 0 }

/-- The label `err` of `recv_command`. -/
def respondError (env : Env) (a : Addr) (reason : String) : Prog Int := do
  match env.nvlistPack (errorResponse reason) with
  | none =>
    modSock a ({ · with resBuf := [] })
    return -1
  | some bytes =>
    modSock a (·.setResponse bytes)
    return 0

/-- The descriptor that a response carries. -/
def responseFd (res : NvList) : Fd :=
  match res.find? fdKey .number with
  | some (.number n) => n
  | _ => -1

/-- `recv_command` after the command function has returned. -/
def respond (env : Env) (a : Addr) (res : NvList) : Prog Int := do
  modSock a ({ · with resFd := responseFd res })
  match env.nvlistPack (res.erase fdKey .number) with
  | none => respondError env a "nvlist_pack error"
  | some bytes =>
    modSock a (·.setResponse bytes)
    return 0

/-- `recv_command`. -/
def recvCommand (env : Env) (sb : SockBuf) (load : Option (List LoadedConf)) : Prog Int := do
  match env.nvlistUnpack (sb.buf.take sb.bufSize) with
  | none => return -1
  | some nv =>
    let cmd ← nvlistGetString nv "command"
    match getCommandFunction cmd with
    | none => respondError env sb.addr "unknown command"
    | some func =>
      let res ← runCommand env nv sb.peer load func
      respond env sb.addr res

end Bmd
