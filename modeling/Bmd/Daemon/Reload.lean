import Bmd.Daemon.Machine

/-!
# `Daemon.Reload` — `reload_virtual_machines`

A reload loads the configuration files into a new list and makes two passes. The first one goes over the new
list: it creates the machines that are new, and starts, stops or restarts those that changed. The second one
goes over `vm_list`: it hands every machine its new configuration and removes the machines that have none.
-/

namespace Bmd

/-! ## Comparing configurations -/

/-- The loop of `compare_vm_conf_entry` over the plugin data. -/
def comparePluginData : List PluginData → List PluginData → Int
  | pa :: as, pb :: bs =>
    let rc := compareNvlist pa.plConf pb.plConf
    if rc ≠ 0 then rc else comparePluginData as bs
  | _, _ => 0

/-- `compare_vm_conf_entry`. -/
def compareVmConfEntry (a b : ConfEntry) : Int :=
  let rc := compareVmConf a.conf b.conf
  if rc ≠ 0 then rc else comparePluginData a.plData b.plData

/-- `compare_vm_conf_entry(a, b) != 0` for two pointers. -/
def Daemon.confChanged (s : Daemon) (a b : Addr) : Bool :=
  match s.conf? a, s.conf? b with
  | some ea, some eb => compareVmConfEntry ea eb != 0
  | _, _ => false

/-! ## Loading -/

/-- The entry of a configuration that has just been loaded. -/
def mkConfEntry (c : Addr) (l : LoadedConf) : ConfEntry :=
  { addr := c, loaded := l, conf := l.conf, plData := l.plData, freed := false, hasMethod := l.hasMethod }

/-- The entries of a new list. -/
def allocConfs : List LoadedConf → Prog (List Addr)
  | [] => return []
  | l :: rest => do
    let c ← alloc
    modify fun s => { s with confs := mkConfEntry c l :: s.confs }
    let cs ← allocConfs rest
    return c :: cs

/-- `load_config_file`: `load` is what it makes of the files, `none` when it returns -1. -/
def loadConfigFile (load : Option (List LoadedConf)) : Prog (Option (List Addr)) := do
  match load with
  | none => return none
  | some ls => return some (← allocConfs ls)

/-! ## First pass -/

/-- A machine that has to be rebooted because its configuration changed. -/
def rebootVm (env : Env) (v : VmEntry) (conf : VmConf) : Prog Unit :=
  match v.state with
  | .terminate => do
    let _ ← setTimer env v.addr .restart (max conf.bootDelay 1)
  | .load | .run => do
    requestStop env v.addr conf.stopTimeout
    setState v.addr .restart
  | .stop => setState v.addr .restart
  | .remove | .restart => pure ()

/-- A machine whose `boot` setting changed. -/
def changeBoot (env : Env) (v : VmEntry) (c : Addr) (conf : VmConf) : Prog Unit :=
  match conf.boot with
  | .no =>
    if v.state = .load ∨ v.state = .run then do
      requestStop env v.addr conf.stopTimeout
      setState v.addr .stop
    else if v.state = .restart then
      setState v.addr .stop
    else
      pure ()
  | .always | .yes =>
    if v.state = .terminate then do
      modVm v.addr ({ · with conf := c })
      let _ ← startVirtualMachine env v.addr
    else if v.state = .stop then
      setState v.addr .restart
    else
      pure ()
  | .oneshot => pure ()

/-- The log file is reopened under the name in the new configuration. -/
def reopenLog (env : Env) (v : VmEntry) (old new : VmConf) : Prog Unit := do
  if v.logfd ≠ -1 ∧ old.errLogfile.isSome then
    vmClose v.logfd
    modVm v.addr ({ · with logfd := -1 })
    let fd ← openErrLogfile env new
    modVm v.addr ({ · with logfd := fd })
  else
    pure ()

/-- The first pass for a configuration whose machine exists. -/
def reloadOldVm (env : Env) (v : VmEntry) (c : Addr) (conf : VmConf) : Prog Unit := do
  let s ← get
  let old := s.confOf v.conf
  reopenLog env v old conf
  modVm v.addr ({ · with newConf := some c })
  if conf.boot ≠ .no ∧ conf.rebootOnChange = true ∧ s.confChanged c v.conf = true then
    rebootVm env v conf
  else if conf.boot = old.boot then
    pure ()
  else
    changeBoot env v c conf

/-- The first pass for a new machine; `false` when `create_vm_entry` failed. -/
def reloadNewVm (env : Env) (c : Addr) (conf : VmConf) : Prog Bool := do
  match ← createVmEntry env c with
  | none => return false
  | some a =>
    modVm a ({ · with newConf := some c })
    bootNewVm env a conf
    return true

/-- The first pass for one configuration. -/
def reloadConf (env : Env) (c : Addr) : Prog Bool := do
  let s ← get
  let conf := s.confOf c
  match s.lookupVmByName conf.name with
  | none => reloadNewVm env c conf
  | some v =>
    reloadOldVm env v c conf
    return true

/-- The first pass. -/
def reloadConfs (env : Env) : List Addr → Prog Bool
  | [] => return true
  | c :: rest => do
    if !(← reloadConf env c) then
      return false
    reloadConfs env rest

/-! ## Second pass -/

/-- A machine that the new configuration does not have. -/
def dropVm (env : Env) (v : VmEntry) (conf : VmConf) : Prog Unit :=
  match v.state with
  | .load | .run => do
    requestStop env v.addr conf.stopTimeout
    setState v.addr .remove
    confListRemove v.conf
  | .stop | .remove | .restart => do
    setState v.addr .remove
    confListRemove v.conf
  | .terminate => do
    vmListRemove v.addr
    confListRemove v.conf
    freeVmEntry v

/-- `VM_CONF(vm_ent) = VM_NEWCONF(vm_ent); VM_NEWCONF(vm_ent) = NULL;` -/
def adoptConf (a c : Addr) : Prog Unit := modVm a ({ · with conf := c, newConf := none })

/-- The second pass for one machine. -/
def settleVm (env : Env) (a : Addr) : Prog Unit := do
  let s ← get
  match s.vm? a with
  | none => pure ()
  | some v =>
    match v.newConf with
    | none => dropVm env v (s.confOf v.conf)
    | some c => adoptConf a c

/-- The second pass. -/
def settleVms (env : Env) : List Addr → Prog Unit
  | [] => return ()
  | a :: rest => do
    settleVm env a
    settleVms env rest

/-- The last loop: every configuration still in the old list is freed. -/
def freeConfs : List Addr → Prog Unit
  | [] => return ()
  | c :: rest => do
    freeVmConfEntry c
    freeConfs rest

/-! ## The reload -/

/-- `SLIST_FOREACH (vm_ent, &vm_list, next) VM_NEWCONF(vm_ent) = NULL;` -/
def clearNewConfs : Prog Unit := modify fun s =>
  { s with vmList := s.vmList.map ({ · with newConf := none }) }

/-- What a reload does after the first pass. -/
def finishReload (env : Env) (newList : List Addr) : Prog Unit := do
  settleVms env ((← get).vmList.map (·.addr))
  freeConfs (← get).vmConfList
  modify fun s =>
    { s with vmConfList := newList, applied := newList.map fun c => (s.confOf c).name }

/-- A reload once the files are loaded. -/
def reloadList (env : Env) (newList : List Addr) : Prog Int := do
  note .reload
  clearNewConfs
  if !(← reloadConfs env newList) then
    return -1
  finishReload env newList
  return 0

/-- `reload_virtual_machines`. -/
def reloadVirtualMachines (env : Env) (load : Option (List LoadedConf)) : Prog Int := do
  match ← loadConfigFile load with
  | none => return -1
  | some newList => reloadList env newList

end Bmd
