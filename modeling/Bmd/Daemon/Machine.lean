import Bmd.Daemon.Vm

/-!
# `Daemon.Machine` — the life of one virtual machine (`bmd.c`)

Creating an entry of `vm_list`, starting and stopping the machine, and the callbacks `on_timer`, `on_vm_exit`
and `on_read_vm_output`. A callback whose `data` is gone is recorded as a fault and does nothing.
-/

namespace Bmd

/-! ## Configuration entries -/

/-- Write `conf.install`, the only field of a configuration the daemon changes. -/
def ConfEntry.setInstall (e : ConfEntry) (b : Bool) : ConfEntry :=
  { e with conf := { e.conf with install := b } }

/-- `conf->install = b`. -/
def setInstall (c : Addr) (b : Bool) : Prog Unit := modify fun s => s.modConf c (·.setInstall b)

/-- `free_vm_conf_entry`. -/
def freeVmConfEntry (c : Addr) : Prog Unit := modify fun s =>
  if (s.conf? c).any (!·.freed) then s.modConf c ({ · with freed := true })
  else { s with faults := .confFree c :: s.faults }

/-- `LIST_REMOVE` of an entry from `vm_conf_list`. -/
def confListRemove (c : Addr) : Prog Unit := modify fun s =>
  if c ∈ s.vmConfList then { s with vmConfList := s.vmConfList.erase c }
  else { s with faults := .confRemove c :: s.faults }

/-- The method, and the place of its plugin data, that `set_vm_method` finds in a configuration entry. -/
def Daemon.methodOf (s : Daemon) (c : Addr) : Option (VmMethod × Nat) :=
  (s.conf? c).bind fun e => findMethod e.conf.backend e.plData

/-- `set_vm_method`. -/
def setVmMethod (a : Addr) : Prog Int := do
  let s ← get
  let c := (s.vmOf a).conf
  match s.methodOf c with
  | none => return -1
  | some (m, i) =>
    modVm a ({ · with method := some m, plConf := some (c, i) })
    return 0

/-! ## Entries of `vm_list` -/

/-- The entry `create_vm_entry` fills in. -/
def mkVmEntry (a c : Addr) (m : VmMethod) (i : Nat) : VmEntry :=
  { addr := a, conf := c, state := .terminate, pid := -1, serial := 0, taps := [], mapfile := none,
    varsfile := none, assignedComport := none, infd := -1, outfd := -1, errfd := -1, logfd := -1,
    newConf := none, method := some m, plConf := some (c, i) }

/-- `create_vm_entry`. -/
def createVmEntry (env : Env) (c : Addr) : Prog (Option Addr) := do
  if !(← ask env.malloc) then
    return none
  let a ← alloc
  let s ← get
  match s.methodOf c with
  | none => return none
  | some (m, i) =>
    set { s with vmList := mkVmEntry a c m i :: s.vmList }
    return some a

/-- `SLIST_REMOVE(&vm_list, vm_ent, vm_entry, next)`. -/
def vmListRemove (a : Addr) : Prog Unit := modify fun s =>
  { s with vmList := s.vmList.filter (·.addr != a) }

/-- `free_vm_entry`. -/
def freeVmEntry (v : VmEntry) : Prog Unit := do
  stopWaitingFor (hasData (.vm v.addr))
  freeVmConfEntry v.conf

/-- `lookup_vm_by_name`. -/
def Daemon.lookupVmByName (s : Daemon) (name : String) : Option VmEntry :=
  s.vmList.find? fun v => (s.confOf v.conf).name == name

/-! ## Console devices -/

/-- `get_nmdm_number`. -/
def getNmdmNumber : Option String → Int
  | none => -1
  | some p => p.toList.foldl
      (fun v c => if c.isDigit then wrap32 (wrap32 (wrap32 (v * 10) + c.toNat) - '0'.toNat) else v) 0

/-- The maximum that `assign_comport` takes over all VMs. -/
def maxNmdmOfVms (s : Daemon) (max₀ : Int) : Int :=
  s.vmList.foldl
    (fun m e => max (getNmdmNumber e.assignedComport) (max (getNmdmNumber (s.confOf e.conf).comport) m)) max₀

/-- `nmdm_selector`. -/
def nmdmSelector (name : String) : Bool := name.toList.take 4 == "nmdm".toList && name.toList.getLast? == some 'B'

/-- The maximum of `assign_comport`, given the names in `/dev`: over the VMs, the devices and `nmdm_offset - 1`. -/
def maxNmdm (s : Daemon) (dev : List String) : Int :=
  let m := (dev.filter nmdmSelector).foldl (fun m n => max (getNmdmNumber (some n)) m) (maxNmdmOfVms s (-1))
  if m < wrap32 (s.nmdmOffset - 1) then wrap32 (s.nmdmOffset - 1) else m

/-- The device name for a number. -/
def nmdmName (n : Int) : String := "/dev/nmdm" ++ toString n ++ "B"

/-- `assign_comport` for `comport = auto`. -/
def assignNmdm (env : Env) (a : Addr) : Prog Int := do
  let s ← get
  match ← ask env.scandir with
  | none => return -1
  | some names =>
    if !(← ask env.malloc) then
      return -1
    if !(← ask env.stat) then
      return -1
    modVm a ({ · with
      assignedComport := some (nmdmName (wrap32 (maxNmdm s names + 1))), comportFor := (s.vmConf a).comport })
    return 0

/-- `assign_comport`. -/
def assignComport (env : Env) (a : Addr) : Prog Int := do
  let v ← getVm a
  let conf ← getVmConf a
  match conf.comport with
  | none => return 0
  | some com =>
    if v.assignedComport.isSome then
      return 0
    else if strcasecmp com "auto" ≠ 0 then
      if !(← ask env.malloc) then
        return -1
      modVm a ({ · with assignedComport := some com, comportFor := some com })
      return 0
    else
      assignNmdm env a

/-! ## Start and stop -/

/-- `cleanup_virtual_machine`. -/
def cleanupVirtualMachine (env : Env) (a : Addr) : Prog Unit := do
  let _ ← removeTaps env a
  cleanupBhyve a

/-- `open_err_logfile`: the descriptor of the log, or `-1`. -/
def openErrLogfile (env : Env) (conf : VmConf) : Prog Fd := do
  if !(← ask env.openFile) then
    return -1
  if conf.errLogfile.isNone then
    return -1
  newFd env

/-- The last statement of `start_virtual_machine`. -/
def openLog (env : Env) (a : Addr) (conf : VmConf) : Prog Unit := do
  let v ← getVm a
  if conf.errLogfile.isSome ∧ v.logfd = -1 then
    let fd ← openErrLogfile env conf
    modVm a ({ · with logfd := fd })
  else
    pure ()

/-- The tap interfaces are set up only for a start from `TERMINATE`. -/
def setUpTaps (env : Env) (a : Addr) : Prog Int := do
  let v ← getVm a
  if v.state ≠ .terminate then
    return 0
  if (← assignTaps env a) < 0 then
    return -1
  if (← activateTaps env) < 0 then
    let _ ← removeTaps env a
    return -1
  return 0

/-- `wait_for_vm(vm_ent) < 0 || wait_for_vm_output(vm_ent) < 0`. -/
def waitForProcess (env : Env) (a : Addr) : Prog Bool := do
  let v ← getVm a
  if (← waitForVm env a v.pid) < 0 then
    return false
  return decide (0 ≤ (← waitForVmOutput env v))

/-- The loader timer of `start_virtual_machine`. -/
def setLoaderTimer (env : Env) (a : Addr) (conf : VmConf) : Prog Int := do
  let v ← getVm a
  if v.state = .load ∧ 0 < conf.loaderTimeout then
    setTimer env a (.loader v.serial) conf.loaderTimeout
  else
    return 0

/-- The child is killed and reaped when its exit cannot be waited for. -/
def abandonProcess (env : Env) (a : Addr) : Prog Unit := do
  poweroffBhyve env a
  let v ← getVm a
  -- a loader has got `SIGKILL`
  let _ ← waitpid env v.pid (v.state == .load)
  cleanupVirtualMachine env a

/-- What `start_virtual_machine` does once the process exists. -/
def superviseProcess (env : Env) (a : Addr) : Prog Int := do
  if !(← waitForProcess env a) then
    abandonProcess env a
    return -1
  let conf ← getVmConf a
  if (← setLoaderTimer env a conf) < 0 then
    return -1
  openLog env a conf
  return 0

/-- `start_virtual_machine`. -/
def startVirtualMachine (env : Env) (a : Addr) : Prog Int := do
  if (← setVmMethod a) < 0 then
    return -1
  if (← assignComport env a) < 0 then
    return -1
  if (← setUpTaps env a) < 0 then
    return -1
  if (← startBhyve env a) < 0 then
    cleanupVirtualMachine env a
    return -1
  superviseProcess env a

/-- `stop_virtual_machine`. -/
def stopVirtualMachine (env : Env) (a : Addr) : Prog Unit := do
  let v ← getVm a
  stopWaitingFor (vmOutputAndTimers v)
  cleanupVirtualMachine env a

/-- `VM_ACPI_POWEROFF(vm_ent); set_timer(vm_ent, second);`: every graceful stop begins so. -/
def requestStop (env : Env) (a : Addr) (second : Int) : Prog Unit := do
  let v ← getVm a
  acpiPoweroffBhyve a
  let _ ← setTimer env a (.stop v.serial) second

/-! ## Callbacks -/

/-- `on_timer` for an existing VM. -/
def onTimerVm (env : Env) (v : VmEntry) : Prog Unit :=
  match v.state with
  | .terminate => do
    let _ ← startVirtualMachine env v.addr
  | .load | .stop | .remove | .restart => poweroffBhyve env v.addr
  | .run => pure ()

/-- `on_timer`. -/
def onTimer (env : Env) (a : Addr) : Prog Unit := do
  match (← get).vm? a with
  | none => fault (.dangling a)
  | some v => onTimerVm env v

/-- The condition under which `on_vm_exit` starts a running VM again. -/
def VmConf.restarts (conf : VmConf) (status : Nat) : Bool :=
  !conf.install && wifexited status &&
    (conf.boot == .always || conf.backend == "bhyve" && wexitstatus status == 0)

/-- The loader succeeded. -/
def loaded (status : Nat) : Bool := wifexited status && wexitstatus status == 0

/-- `VM_CLOSE(vm_ent, INFD); stop_waiting_for(vm_output, vm_ent);` -/
def finishLoad (a : Addr) : Prog Unit := do
  let v ← getVm a
  vmClose v.infd
  modVm a ({ · with infd := -1 })
  stopWaitingFor (vmOutput v)

/-- The case `STOP` of `on_vm_exit`, which the case `RUN` falls into. -/
def onVmStopped (env : Env) (a : Addr) : Prog Unit := do
  stopVirtualMachine env a
  setInstall ((← get).vmOf a).conf false

/-- The case `RESTART` of `on_vm_exit`. -/
def onVmRestart (env : Env) (a : Addr) : Prog Unit := do
  stopVirtualMachine env a
  setState a .terminate
  let conf ← getVmConf a
  let _ ← setTimer env a .restart (max conf.bootDelay 3)

/-- The case `REMOVE` of `on_vm_exit`. -/
def onVmRemoved (env : Env) (a : Addr) : Prog Unit := do
  stopVirtualMachine env a
  let v ← getVm a
  vmListRemove a
  freeVmEntry v

/-- `on_vm_exit` for an existing VM, once the process is reaped. -/
def onVmExitStatus (env : Env) (v : VmEntry) (conf : VmConf) (status : Nat) : Prog Unit :=
  match v.state with
  | .load =>
    if loaded status then do
      finishLoad v.addr
      let _ ← startVirtualMachine env v.addr
    else
      stopVirtualMachine env v.addr
  | .restart => onVmRestart env v.addr
  | .run =>
    if conf.restarts status then do
      let _ ← startVirtualMachine env v.addr
    else
      onVmStopped env v.addr
  | .stop => onVmStopped env v.addr
  | .remove => onVmRemoved env v.addr
  | .terminate => pure ()

/-- Record a call of `on_vm_exit`. -/
def recordExit (v : VmEntry) (conf : VmConf) (status : Nat) : Prog Unit := modify fun s =>
  { s with exits := { vm := v.addr, serial := v.serial, state := v.state, conf := conf, status := status } :: s.exits }

/-- `on_vm_exit` for an existing VM. -/
def onVmExitVm (env : Env) (v : VmEntry) (ident : Pid) : Prog Unit := do
  modify fun s => s.note (.wait v.addr ident v.pid (s.hasExited v.pid))
  let status ← waitpid env v.pid false
  let conf ← getVmConf v.addr
  recordExit v conf status
  onVmExitStatus env v conf status

/-- `on_vm_exit`. -/
def onVmExit (env : Env) (a : Addr) (ident : Pid) : Prog Unit := do
  match (← get).vm? a with
  | none => fault (.dangling a)
  | some v => onVmExitVm env v ident

/-- The events `on_read_vm_output` removes. -/
def vmReadOf (a : Addr) (fd : Fd) (e : Event) : Bool :=
  e.data == .vm a && e.ident == fd && e.filter == .read

/-- `on_read_vm_output`. -/
def onReadVmOutput (a : Addr) (fd : Fd) (r : ReadResult) : Prog Unit := do
  match (← get).vm? a with
  | none => fault (.dangling a)
  | some _ =>
    if (← writeErrLog fd a r) = 0 then
      stopWaitingFor (vmReadOf a fd)
    else
      pure ()

/-! ## Starting the daemon -/

/-- The start of a VM that has just been created, in `start_virtual_machines` and in a reload. -/
def bootNewVm (env : Env) (a : Addr) (conf : VmConf) : Prog Unit := do
  if conf.boot = .no then
    pure ()
  else if 0 < conf.bootDelay then
    let _ ← setTimer env a .bootDelay conf.bootDelay
  else
    let _ ← startVirtualMachine env a

/-- The loop of `start_virtual_machines`. -/
def startVms (env : Env) : List Addr → Prog Int
  | [] => return 0
  | c :: rest => do
    match ← createVmEntry env c with
    | none => return -1
    | some a =>
      let conf ← getVmConf a
      bootNewVm env a conf
      startVms env rest

/-- `SIGHUP`, `SIGINT`, `SIGTERM`. -/
def sighup : Int := 1

@[inherit_doc sighup]
def sigint : Int := 2

@[inherit_doc sighup]
def sigtermNo : Int := 15

/-- `start_virtual_machines`. -/
def startVirtualMachines (env : Env) : Prog Int := do
  let sig (n : Int) (cb : Callback) : Kev × Callback × Data :=
    ({ ident := n, filter := .signal, flags := .add }, cb, .null)
  if (← registerEvents env [sig sigtermNo .onSigterm, sig sigint .onSigterm, sig sighup .onSighup]) < 0 then
    return -1
  startVms env (← get).vmConfList

end Bmd
