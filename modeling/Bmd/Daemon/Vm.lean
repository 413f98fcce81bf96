import Bmd.Conf.NvList
import Bmd.Daemon.Events

/-!
# `Daemon.Vm` — the `bhyve` method (`vm.c`)

Starting a loader or `bhyve` itself, the tap interfaces, the map file of `grub-bhyve`, and the four other
operations of `struct vm_method`. What the forked child does before `exec` is not part of the daemon's state.
-/

namespace Bmd

/-- The VM entry at `a`. -/
def getVm (a : Addr) : Prog VmEntry := do return (← get).vmOf a

/-- The configuration of the VM at `a`. -/
def getVmConf (a : Addr) : Prog VmConf := do return (← get).vmConf a

/-! ## Tap interfaces -/

/-- `SIOCIFCREATE2`: the name of a new interface. -/
def createTap (env : Env) : Prog (Option String) := do
  let s ← get
  match env.createTap s.tick s.taps with
  | none =>
    set { s with tick := s.tick + 1 }
    return none
  | some t =>
    set { s with tick := s.tick + 1, taps := t :: s.taps }
    return some t

/-- `destroy_tap`. -/
def destroyTap (env : Env) (t : String) : Prog Unit := do
  if (← ask env.destroyTap) then
    modify fun s => { s with taps := s.taps.erase t }
  else
    pure ()

/-- The loop of `remove_taps`. -/
def destroyTaps (env : Env) : List NetConf → Prog Unit
  | [] => return ()
  | nc :: rest => do
    match nc.tap with
    | none => destroyTaps env rest
    | some t =>
      destroyTap env t
      destroyTaps env rest

/-- `remove_taps`. -/
def removeTaps (env : Env) (a : Addr) : Prog Int := do
  if !(← ask env.removeSocket) then
    return -1
  let v ← getVm a
  destroyTaps env v.taps
  modVm a ({ · with taps := [] })
  return 0

/-- `activate_taps`: a tap that does not come up is only reported. -/
def activateTaps (env : Env) : Prog Int := do
  if !(← ask env.socket) then
    return -1
  return 0

/-- The copies of `conf->nets` in `assign_taps`; `false` when `copy_net_conf` failed. -/
def copyNetConfs (env : Env) : List NetConf → Prog Bool
  | [] => return true
  | _ :: rest => do
    if !(← ask env.malloc) then
      return false
    copyNetConfs env rest

/-- The second loop of `assign_taps`, with the taps already treated and those to come. -/
def createTaps (env : Env) (a : Addr) (done : List NetConf) : List NetConf → Prog Int
  | [] => return 0
  | nc :: rest => do
    if !(← ask env.malloc) then
      -- no description: the interface is not created
      createTaps env a (done ++ [nc]) rest
    else
      match ← createTap env with
      | none =>
        let _ ← removeTaps env a
        return -1
      | some t =>
        let nc' := { nc with tap := some t }
        modVm a ({ · with taps := done ++ nc' :: rest })
        if !(← ask env.setTapDescription) then
          let _ ← removeTaps env a
          return -1
        if !(← ask env.addToBridge) then
          let _ ← removeTaps env a
          return -1
        createTaps env a (done ++ [nc']) rest

/-- `assign_taps`. -/
def assignTaps (env : Env) (a : Addr) : Prog Int := do
  let v ← getVm a
  if !v.taps.isEmpty then
    return 0
  let conf ← getVmConf a
  if !(← copyNetConfs env conf.nets) then
    return -1
  if !(← ask env.socket) then
    return -1
  let nets := conf.nets.map fun nc => { nc with tap := none }
  modVm a ({ · with taps := nets })
  createTaps env a [] nets

/-! ## Starting a process -/

/-- Output goes through pipes unless the console is `stdio`. -/
def dopipe (v : VmEntry) : Bool :=
  match v.assignedComport with
  | none => true
  | some com => strcasecmp com "stdio" != 0

/-- The pipes for the output and the error stream of a child; `none` when one could not be made. -/
def outputPipes (env : Env) (a : Addr) (dopipe : Bool) : Prog (Option (Option ((Fd × Fd) × (Fd × Fd)))) := do
  if !dopipe then
    return some none
  match ← pipe env a with
  | none => return none
  | some out =>
    match ← pipe env a with
    | none =>
      closeFd out.1
      closeFd out.2
      return none
    | some err => return some (some (out, err))

/-- The parent keeps the read ends of the pipes. -/
def keepReadEnds (a : Addr) : Option ((Fd × Fd) × (Fd × Fd)) → Prog Unit
  | none => return ()
  | some (out, err) => do
    closeFd out.2
    closeFd err.2
    modVm a ({ · with outfd := out.1, errfd := err.1 })

/-- Close both ends of both pipes. -/
def closePipes : Option ((Fd × Fd) × (Fd × Fd)) → Prog Unit
  | none => return ()
  | some (out, err) => do
    closeFd out.1
    closeFd out.2
    closeFd err.1
    closeFd err.2

/-- `vm->pid = pid`. -/
def setPid (a : Addr) (pid : Pid) (serial : Nat) : Prog Unit :=
  modVm a ({ · with pid := pid, serial := serial })

/-- `bhyve_load`. -/
def bhyveLoad (env : Env) (a : Addr) : Prog Int := do
  let v ← getVm a
  match ← outputPipes env a (dopipe v) with
  | none => return -1
  | some pipes =>
    match ← fork env a .loader with
    | none =>
      closePipes pipes
      return -1
    | some (pid, serial) =>
      keepReadEnds a pipes
      setPid a pid serial
      setState a .load
      return 0

/-- `inspect`, which may wait for `grub-emu` for ever. -/
def inspect (env : Env) : Prog Bool := do
  match ← ask env.inspect with
  | none => throw .hang
  | some found => return found

/-- `create_load_command` returns a command. -/
def createLoadCommand (env : Env) (conf : VmConf) : Prog Bool :=
  match if conf.install then conf.installcmd else conf.loadcmd with
  | none => return false
  | some t => if strcasecmp t "auto" = 0 then inspect env else ask env.malloc

/-- The input pipe of `grub_load`, when there is a command to feed; `none` when it could not be made. -/
def inputPipe (env : Env) (a : Addr) (cmd : Bool) : Prog (Option (Option (Fd × Fd))) := do
  if !cmd then
    return some none
  match ← pipe env a with
  | none => return none
  | some ifd => return some (some ifd)

/-- The parent keeps the read end of the input pipe. -/
def keepInput (a : Addr) : Option (Fd × Fd) → Prog Unit
  | none => modVm a ({ · with infd := -1 })
  | some (r, w) => do
    closeFd w
    modVm a ({ · with infd := r })

/-- `grub_load`. After a failed `fork` the input pipe stays open. -/
def grubLoad (env : Env) (a : Addr) : Prog Int := do
  let conf ← getVmConf a
  let cmd ← createLoadCommand env conf
  match ← inputPipe env a cmd with
  | none => return -1
  | some ifd =>
    match ← fork env a .loader with
    | none => return -1
    | some (pid, serial) =>
      setPid a pid serial
      setState a .load
      keepInput a ifd
      modVm a ({ · with outfd := -1, errfd := -1 })
      return 0

/-- `exec_bhyve`. A failed `fork` ends the daemon. -/
def execBhyve (env : Env) (a : Addr) : Prog Int := do
  let v ← getVm a
  match ← outputPipes env a (dopipe v) with
  | none => return -1
  | some pipes =>
    match ← fork env a .bhyve with
    | none => throw (.exit 1)
    | some (pid, serial) =>
      keepReadEnds a pipes
      setPid a pid serial
      setState a .run
      return 0

/-- `unlink(2)` of a temporary file. -/
def unlink (fn : String) : Prog Unit := modify fun s => { s with files := s.files.erase fn }

/-- `if (mapfile) unlink(mapfile)`. -/
def unlinkMapfile : Option String → Prog Unit
  | none => return ()
  | some fn => unlink fn

/-- `mkstemp(3)`: the name of a new file. -/
def mkstemp (env : Env) : Prog (Option String) := do
  let s ← get
  match env.mkstemp s.tick s.files with
  | none =>
    set { s with tick := s.tick + 1 }
    return none
  | some fn =>
    set { s with tick := s.tick + 1, files := fn :: s.files }
    return some fn

/-- `write_mapfile`. -/
def writeMapfile (env : Env) (a : Addr) : Prog Int := do
  match ← mkstemp env with
  | none => return -1
  | some fn =>
    let v ← getVm a
    unlinkMapfile v.mapfile
    modVm a ({ · with mapfile := some fn })
    if !(← ask env.mapfileWrite) then
      modVm a ({ · with mapfile := none })
      unlink fn
      return -1
    return 0

/-- The path `copy_uefi_vars` works on: the one the VM has, or a new one. -/
def varsPath (env : Env) (a : Addr) : Prog (Option String) := do
  let v ← getVm a
  match v.varsfile with
  | some fn => return some fn
  | none =>
    let conf ← getVmConf a
    if !(← ask env.malloc) then
      return none
    return some (env.varsDir ++ "/" ++ conf.name ++ ".vars")

/-- `copy_uefi_vars`. -/
def copyUefiVars (env : Env) (a : Addr) : Prog Int := do
  match ← varsPath env a with
  | none => return -1
  | some fn =>
    modVm a ({ · with varsfile := some fn })
    if !(← ask env.copyVars) then
      return -1
    return 0

/-- The boot loaders that `start_bhyve` knows. -/
inductive Loader where
  | bhyveload | grub | uefi | csm | unknown
  deriving DecidableEq, Repr

/-- The `strcasecmp` chain of `start_bhyve` on `conf->loader`. -/
def VmConf.loaderKind (conf : VmConf) : Loader :=
  let loader := conf.loader.getD ""
  if strcasecmp loader "bhyveload" = 0 then .bhyveload
  else if strcasecmp loader "grub" = 0 then .grub
  else if strcasecmp loader "uefi" = 0 then .uefi
  else if strcasecmp loader "csm" = 0 then .csm
  else .unknown

/-- `start_bhyve`. -/
def startBhyve (env : Env) (a : Addr) : Prog Int := do
  let v ← getVm a
  if v.state = .load then
    execBhyve env a
  else
    let conf ← getVmConf a
    match conf.loaderKind with
    | .bhyveload => bhyveLoad env a
    | .grub =>
      if (← writeMapfile env a) < 0 then
        return -1
      grubLoad env a
    | .uefi =>
      if (← copyUefiVars env a) < 0 then
        return -1
      execBhyve env a
    | .csm => execBhyve env a
    | .unknown => return -1

/-! ## The other methods -/

/-- The descriptors and the map file that `cleanup_bhyve` releases. -/
def releaseBhyve (a : Addr) : Prog Unit := do
  let v ← getVm a
  vmClose v.infd
  vmClose v.outfd
  vmClose v.errfd
  vmClose v.logfd
  unlinkMapfile v.mapfile
  modVm a ({ · with infd := -1, outfd := -1, errfd := -1, logfd := -1, mapfile := none })

/-- `cleanup_bhyve`. -/
def cleanupBhyve (a : Addr) : Prog Unit := do
  releaseBhyve a
  setState a .terminate

/-- `VM_ACPI_POWEROFF`: `acpi_poweroff_bhyve`. -/
def acpiPoweroffBhyve (a : Addr) : Prog Unit := do
  let v ← getVm a
  note (.acpiPoweroff a v.serial)
  kill a v.pid .sigterm

/-- The record of a call of `VM_POWEROFF` that has just taken its action. -/
def Daemon.forcing (s : Daemon) (a : Addr) (opened : Bool) : Forced :=
  { vm := a, state := (s.vmOf a).state, children := s.procs.filter fun p => p.owner == a && p.status == none,
    opened := opened, sent := s.log.head? }

/-- Record a call of `VM_POWEROFF`. -/
def recordForced (a : Addr) (opened : Bool) : Prog Unit :=
  modify fun s => { s with forced := s.forcing a opened :: s.forced }

/-- `suspend_bhyve`: whether the device could be opened, and the `ioctl` was made. -/
def suspendBhyve (env : Env) (a : Addr) (how : SuspendHow) : Prog Bool := do
  let opened ← ask env.openVmm
  note (.suspend a how opened)
  return opened

/-- `VM_POWEROFF`: `poweroff_bhyve`. -/
def poweroffBhyve (env : Env) (a : Addr) : Prog Unit := do
  let v ← getVm a
  note (.poweroff a v.serial)
  if v.state = .load then
    kill a v.pid .sigkill
    recordForced a true
  else
    let opened ← suspendBhyve env a .poweroff
    recordForced a opened

/-- `VM_RESET`: `reset_bhyve`. -/
def resetBhyve (env : Env) (a : Addr) : Prog Unit := do
  let _ ← suspendBhyve env a .reset

/-! ## Output -/

/-- What `write(2)` answers: `again` is `EINTR` or `EAGAIN`. -/
inductive WriteResult where
  | again
  | error
  | wrote (n : Nat)
  deriving DecidableEq, Repr

/-- The bytes that a `write` takes. -/
def WriteResult.taken (buf : List UInt8) : WriteResult → List UInt8
  | .wrote n => buf.take n
  | _ => []

/-- The result of reading a pipe. What was read comes with the answers of the `write`s that follow. -/
inductive ReadResult where
  | eof
  | error
  | data (bytes : List UInt8) (write : Nat → WriteResult)

/-- The loop of `write_err_log`, after `k` calls of `write` and `n` bytes: what goes to the log, and whether the
    log stays open. A pass that goes on has advanced, so that there are no more of them than bytes. -/
def writeLoop (write : Nat → WriteResult) (buf : List UInt8) : (passes k n : Nat) → List UInt8 × Bool
  | 0, _, _ => ([], true)
  | passes + 1, k, n =>
    if buf.length ≤ n then ([], true)
    else if write k = .error then ([], true)
    else
      let out := (write k).taken (buf.drop n)
      -- `rc = 0;` follows the `write` and hides its result
      let rc : Int := 0
      if rc ≤ 0 then (out, false)
      else
        let rest := writeLoop write buf passes (k + 1) (n + rc.toNat)
        (out ++ rest.1, rest.2)

/-- `write_err_log` at the end of the file. -/
def endOfOutput (fd : Fd) (a : Addr) : Prog Int := do
  closeFd fd
  modVm a fun v =>
    { v with outfd := if v.outfd = fd then -1 else v.outfd, errfd := if v.errfd = fd then -1 else v.errfd }
  return 0

/-- `write_err_log`. -/
def writeErrLog (fd : Fd) (a : Addr) : ReadResult → Prog Int
  | .eof => endOfOutput fd a
  | .error => return -1
  | .data bytes write => do
    if bytes.length = 0 then
      endOfOutput fd a
    else
      let v ← getVm a
      if v.logfd ≠ -1 ∧ (writeLoop write bytes bytes.length 0 0).2 = false then
        closeFd v.logfd
        modVm a ({ · with logfd := -1 })
        return bytes.length
      else
        return bytes.length

end Bmd
