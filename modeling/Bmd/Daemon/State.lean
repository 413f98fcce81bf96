import Bmd.Conf.VmConf
import Bmd.Lib.Prog

/-!
# `Daemon.State` — the daemon's memory, the kernel objects it owns, and what it observably does

One record `Daemon` holds

* the global lists of the daemon (`vm_list`, `vm_conf_list`, `event_list`, `sock_list`) and its counters;
* the kernel's side: the un-reaped children, the open descriptors, the tap interfaces, the temporary files, the
  owners that console devices were given (newest first);
* history variables: `log` (what was done to which VM, newest first), `launches` (what the children were forked
  with), `forced` (the calls of `VM_POWEROFF`), `exits` (those of `on_vm_exit`), `faults` (memory errors), and the
  records already freed. The modelled functions write them and never read them.

A pointer is an `Addr`: every allocation gets a new one, so an address identifies an *object* and a dangling
reference shows up as an address that is no longer in the list the object lived in.
-/

namespace Bmd

/-- The identity of an allocated object. -/
abbrev Addr := Nat

/-- `pid_t`; `-1` before the first start. -/
abbrev Pid := Int

/-- A file descriptor; `-1` when closed. -/
abbrev Fd := Int

/-- `enum STATE`. -/
inductive State where
  | terminate | load | run | stop | remove | restart
  deriving DecidableEq, Repr

/-! ## Processes -/

/-- What a child of the daemon executes: `bhyveload`/`grub-bhyve`, or `bhyve`. -/
inductive ProcKind where
  | loader | bhyve
  deriving DecidableEq, Repr

/-- An un-reaped child. `status` is `none` while it runs and the wait status once it has exited; `serial`
    tells apart two processes that got the same pid one after the other. -/
structure Proc where
  pid : Pid
  owner : Addr
  serial : Nat
  kind : ProcKind
  status : Option Nat
  deriving DecidableEq, Repr

/-- `WIFEXITED`. -/
def wifexited (status : Nat) : Bool := status % 128 == 0

/-- `WEXITSTATUS`. -/
def wexitstatus (status : Nat) : Nat := status / 256 % 256

/-! ## Events -/

/-- `enum EVENT_TYPE`. -/
inductive EventType where
  | event | plugin
  deriving DecidableEq, Repr

/-- The kqueue filters in use. -/
inductive Filter where
  | read | write | timer | proc | signal
  deriving DecidableEq, Repr

/-- The values `kev.flags` takes: `EV_ADD`, `EV_ADD | EV_ONESHOT`, `EV_ENABLE`, `EV_DISABLE`. -/
inductive EvFlags where
  | add | oneshot | enable | disable
  deriving DecidableEq, Repr

/-- The callbacks that are registered. -/
inductive Callback where
  | onTimer | onVmExit | onReadVmOutput | onRecvSockBuf | onSendSockBuf
  | onAcceptCmdSock | onSigterm | onSighup | plugin
  deriving DecidableEq, Repr

/-- What a timer was armed for (a history variable: the daemon's timers carry no kind). -/
inductive Purpose where
  | bootDelay
  | restart
  | loader (serial : Nat)
  | stop (serial : Nat)
  deriving DecidableEq, Repr

/-- The `data` pointer of an event, with the kind of object it points to. -/
inductive Data where
  | null
  | vm (a : Addr)
  | sock (a : Addr)
  deriving DecidableEq, Repr

/-- `struct event`. `armed` is the kernel's side of it: the knote exists. The kernel drops the knote of a
    one-shot event when it delivers it and the knotes of a descriptor when it is closed. -/
structure Event where
  addr : Nat
  type : EventType
  ident : Int
  filter : Filter
  flags : EvFlags
  data : Data
  cb : Callback
  armed : Bool
  purpose : Option Purpose
  deriving DecidableEq, Repr

/-- `kev.flags & EV_ONESHOT`. -/
def Event.oneshot (e : Event) : Bool := e.flags == .oneshot

/-- What each callback is registered with. -/
def Event.wf (e : Event) : Prop :=
  match e.cb with
  | .onTimer => e.filter = .timer ∧ e.flags = .oneshot ∧ e.type = .event ∧ ∃ a, e.data = .vm a
  | .onVmExit => e.filter = .proc ∧ e.flags = .oneshot ∧ e.type = .event ∧ ∃ a, e.data = .vm a
  | .onReadVmOutput => e.filter = .read ∧ e.flags = .add ∧ e.type = .event ∧ ∃ a, e.data = .vm a
  | .onRecvSockBuf => e.filter = .read ∧ e.flags ≠ .oneshot ∧ e.type = .event ∧ ∃ a, e.data = .sock a
  | .onSendSockBuf => e.filter = .write ∧ e.flags ≠ .oneshot ∧ e.type = .event ∧ ∃ a, e.data = .sock a
  | .onAcceptCmdSock => e.filter = .read ∧ e.flags = .add ∧ e.type = .event ∧ e.data = .null
  | .onSigterm | .onSighup => e.filter = .signal ∧ e.flags = .add ∧ e.type = .event ∧ e.data = .null
  | .plugin => e.type = .plugin ∧ e.data = .null

/-- The event is a pending timer of the VM at `a`. -/
def Event.isTimerOf (a : Addr) (e : Event) : Bool := e.data == .vm a && e.filter == .timer && e.armed

/-- The event is a pending exit notification for the VM at `a`. -/
def Event.isWaitOf (a : Addr) (e : Event) : Bool := e.data == .vm a && e.filter == .proc && e.armed

/-! ## Events in memory -/

/-- The records of `event_list` in memory: those that a walk from its head meets, the walk before the last
    `stop_waiting_for`, and, once a record has been freed twice, the free records (the last freed first) and the record
    that an event got. A record that is freed once and used again is as good as a new one. -/
structure EventMemory where
  linked : List Event := []
  swept : List Event := []
  free : Option (List Addr) := none
  given : List (Addr × Addr) := []

namespace EventMemory

/-- The record of an event. -/
def record (m : EventMemory) (e : Addr) : Addr := (m.given.lookup e).getD e

/-- `malloc` and `LIST_INSERT_HEAD`. When the record is in the list already, its link now leads back to the head: the
    walk goes round, and does not meet what was behind it. -/
def insertHead (m : EventMemory) (e : Event) : EventMemory :=
  match m.free with
  | none => { m with linked := e :: m.linked }
  | some free =>
    let r := free.headD e.addr
    { m with
      linked := { e with addr := r } :: m.linked.takeWhile (·.addr != r)
      free := some free.tail
      given := (e.addr, r) :: m.given }

/-- `stop_waiting_for`. -/
def sweep (m : EventMemory) (fn : Event → Bool) : EventMemory :=
  { m with
    linked := m.linked.filter fun e => !fn e
    swept := m.linked
    free := m.free.map (((m.linked.filter fn).map (·.addr)).reverse ++ ·) }

/-- `LIST_REMOVE` and `free` of a record in the list. -/
def remove (m : EventMemory) (e : Addr) : EventMemory :=
  { m with linked := m.linked.filter (·.addr != m.record e), free := m.free.map (m.record e :: ·) }

/-- `LIST_REMOVE` and `free` of a record that is not in the list. One that the last sweep has removed still has its
    links: what was before it is linked to what was behind it, removed or not. -/
def removeAgain (m : EventMemory) (e : Addr) : EventMemory :=
  let r := m.record e
  let kept (x : Event) : Bool := m.linked.any (·.addr == x.addr)
  let front := m.swept.takeWhile (·.addr != r)
  let back := (m.swept.dropWhile (·.addr != r)).drop 1
  let freed := ((m.swept.filter (!kept ·)).map (·.addr)).reverse
  { m with
    linked := if m.swept.any (·.addr == r) then front.filter kept ++ back.takeWhile (!kept ·) ++ back.filter kept
      else m.linked
    free := some (r :: m.free.getD freed) }

end EventMemory

/-! ## Configuration entries -/

/-- `struct vm_method`: the one that the daemon itself brings. VMs with the backend of a plugin are left out, so that
    every VM is a VM with this one. -/
inductive VmMethod where
  | bhyve
  deriving DecidableEq, Repr

/-- `method->name`. -/
def VmMethod.name : VmMethod → String
  | .bhyve => "bhyve"

/-- `struct plugin_data`. The built-in `bhyve` method has no hooks; the hooks `on_status_change` and `on_reload_config`
    of a plugin are taken to do nothing. -/
structure PluginData where
  ent : Addr
  method : Option VmMethod
  plConf : NvList

/-- The `plugin_data` element whose method has the backend's name, with its position. -/
def findMethod (backend : String) (plData : List PluginData) : Option (VmMethod × Nat) :=
  go 0 plData
where
  go (i : Nat) : List PluginData → Option (VmMethod × Nat)
    | [] => none
    | pd :: rest =>
      match pd.method with
      | none => go (i + 1) rest
      | some m => if m.name = backend then some (m, i) else go (i + 1) rest

/-- A configuration that `load_config_file` puts on its list: it passed `check_conf`. `parse_backend` admits a
    backend only when a plugin provides it and `create_plugin_data` makes an element for every plugin, so the
    method is there. -/
structure LoadedConf where
  conf : VmConf
  plData : List PluginData
  hasMethod : (findMethod conf.backend plData).isSome
  checked : checkConf conf = true

/-- `struct vm_conf_entry`. The daemon writes one field of it, `conf.install`; `loaded` remembers the
    configuration as it was loaded. -/
structure ConfEntry where
  addr : Nat
  loaded : LoadedConf
  conf : VmConf
  plData : List PluginData
  freed : Bool
  hasMethod : (findMethod conf.backend plData).isSome

/-! ## Virtual machines -/

/-- `struct vm_entry` (with its `struct vm`). `serial` mirrors `pid` as the process identity, and `comportFor`
    remembers the `comport` setting that the console was assigned for. -/
structure VmEntry where
  addr : Nat
  conf : Addr
  state : State
  pid : Pid
  serial : Nat
  taps : List NetConf
  mapfile : Option String
  varsfile : Option String
  assignedComport : Option String
  infd : Fd
  outfd : Fd
  errfd : Fd
  logfd : Fd
  newConf : Option Addr
  method : Option VmMethod
  plConf : Option (Addr × Nat)
  comportFor : Option String := none

/-! ## Sockets -/

/-- `struct xucred` of the peer. -/
structure Xucred where
  uid : Int
  groups : List Int
  deriving DecidableEq, Repr

/-- `struct sock_buf`. -/
structure SockBuf where
  addr : Nat
  fd : Fd
  readState : Nat
  bufSize : Nat
  size : List UInt8
  readSize : Nat
  readBytes : Nat
  buf : List UInt8
  sentSize : Nat
  resFd : Fd
  resSize : Nat
  resBytes : Nat
  resBuf : List UInt8
  eventTime : Int
  peer : Xucred

/-! ## History -/

/-- Signals sent with `kill(2)`. -/
inductive Signal where
  | sigterm | sigkill
  deriving DecidableEq, Repr

/-- `enum vm_suspend_how`, as far as it is used. -/
inductive SuspendHow where
  | reset | poweroff
  deriving DecidableEq, Repr

/-- What the daemon did to a VM. `serial` is the VM's latest process at that moment, `pending` what its
    pending timers were armed for, and `child` says that the pid was that of an un-reaped child of the VM. -/
inductive Action where
  /-- An event of the VM was delivered while it was in state `st`. -/
  | deliver (vm : Addr) (cb : Callback) (purpose : Option Purpose) (st : State) (serial : Nat)
  /-- `VM_STATE` was written. -/
  | state (vm : Addr) (old new : State) (serial : Nat) (pending : List (Option Purpose))
  /-- A child was forked. -/
  | spawn (vm : Addr) (serial : Nat) (kind : ProcKind)
  /-- `on_vm_exit`, called for `ident`, waited for `pid`; `exited`: that process had exited. -/
  | wait (vm : Addr) (ident pid : Pid) (exited : Bool)
  /-- `kill(2)`. -/
  | kill (vm : Addr) (pid : Pid) (sig : Signal) (child : Bool)
  /-- `VM_ACPI_POWEROFF`, for the process `serial`. -/
  | acpiPoweroff (vm : Addr) (serial : Nat)
  /-- `VM_POWEROFF`, for the process `serial`. -/
  | poweroff (vm : Addr) (serial : Nat)
  /-- `VM_SUSPEND` on the VM's device, which is tried only if the device could be opened. -/
  | suspend (vm : Addr) (how : SuspendHow) (opened : Bool)
  /-- `set_timer` was called. -/
  | arm (vm : Addr) (purpose : Purpose) (second : Int)
  /-- A boot or install command was accepted for the VM. -/
  | boot (vm : Addr)
  /-- A shutdown or poweroff command was answered with `error = false`. -/
  | down (vm : Addr) (st : State) (pending : List (Option Purpose))
  /-- `reload_virtual_machines` went past `load_config_file`. -/
  | reload
  deriving DecidableEq, Repr

/-- The VM an action was done to. -/
def Action.vm? : Action → Option Addr
  | .deliver vm .. => some vm
  | .state vm .. => some vm
  | .spawn vm .. => some vm
  | .wait vm .. => some vm
  | .kill vm .. => some vm
  | .acpiPoweroff vm _ => some vm
  | .poweroff vm _ => some vm
  | .suspend vm .. => some vm
  | .arm vm .. => some vm
  | .boot vm => some vm
  | .down vm .. => some vm
  | .reload => none

/-- The action concerns the VM at `a`; a reload concerns all of them. -/
def Action.about (a : Addr) (x : Action) : Bool := x.vm? == none || x.vm? == some a

/-- The action is the record of a command. -/
def Action.isCommand : Action → Bool
  | .boot _ | .down .. | .reload => true
  | _ => false

/-- The action is the record of something that came from outside: a command, or an event of the VM. -/
def Action.isOutside (x : Action) : Bool :=
  match x with
  | .deliver .. => true
  | x => x.isCommand

/-- What a child found in the memory it was forked with: the state of its VM, the `comport` of the configuration, and
    the console with the setting it was assigned for. -/
structure Launch where
  vm : Addr
  kind : ProcKind
  state : State
  comport : Option String
  console : Option String
  assignedFor : Option String
  deriving DecidableEq, Repr

/-- A call of `VM_POWEROFF`: the state the VM was in, its running children, whether the device of the VM could be opened
    if it had to be, and the action that was taken. -/
structure Forced where
  vm : Addr
  state : State
  children : List Proc
  opened : Bool
  sent : Option Action
  deriving DecidableEq, Repr

/-- A call of `on_vm_exit`: the VM with its latest process, the state and the configuration it had, and the status that
    `waitpid` gave. -/
structure Exited where
  vm : Addr
  serial : Nat
  state : State
  conf : VmConf
  status : Nat

/-- Memory errors. The modelled functions go on after one, as if the operation had had no effect; what a second release
    of an event does to memory is in `EventMemory`. -/
inductive Fault where
  /-- `LIST_REMOVE` of a `vm_conf_entry` that is not linked in `vm_conf_list`. -/
  | confRemove (c : Addr)
  /-- `free_vm_conf_entry` of an entry already freed. -/
  | confFree (c : Addr)
  /-- `LIST_REMOVE` and `free` of an event that is not in `event_list`. -/
  | eventFree (e : Addr)
  /-- A callback was handed the address of an object that is gone. -/
  | dangling (a : Addr)
  deriving DecidableEq, Repr

/-! ## The daemon -/

/-- Where `main` is. -/
inductive Phase where
  /-- in `event_loop` -/
  | loop
  /-- past `event_loop`, before `stop_virtual_machines` -/
  | left
  /-- in the loop of `stop_virtual_machines`, with the given `count`; `0`: it has returned 0 -/
  | stopping (count : Nat)
  /-- `stop_virtual_machines` has returned -1 -/
  | failed
  deriving DecidableEq, Repr

/-- The daemon and the kernel objects that belong to it. -/
structure Daemon where
  vmList : List VmEntry
  vmConfList : List Addr
  confs : List ConfEntry
  eventList : List Event
  sockList : List SockBuf
  timerId : Int
  sigterm : Nat
  phase : Phase
  cmdSock : Fd
  nmdmOffset : Int
  procs : List Proc
  fds : List Fd
  /-- the ends of pipes for the children of a VM that are open -/
  pipes : List (Addr × Fd)
  taps : List String
  files : List String
  comOwners : List (String × Int)
  next : Nat
  tick : Nat
  log : List Action
  faults : List Fault
  freedEvents : List Addr
  applied : List String
  memory : EventMemory := {}
  launches : List Launch := []
  forced : List Forced := []
  exits : List Exited := []

/-- How the process ends other than by returning from `main`, or stops for ever. -/
inductive Halt where
  | exit (code : Int)
  | abort
  | hang
  deriving DecidableEq, Repr

/-- A piece of the daemon's code. -/
abbrev Prog := Lib.Prog Halt Daemon

/-! ## The outside world -/

/-- What the system answers. Every call that consults it gets a new `tick`, so that any sequence of answers
    is some `Env`. Descriptors, pids, interface names and temporary files are new among those in use. -/
structure Env where
  malloc : Nat → Bool
  kevent : Nat → Bool
  pipe : Nat → Bool
  fork : Nat → List Pid → Option Pid
  forkFresh : ∀ n used p, fork n used = some p → 0 < p ∧ p ∉ used
  fd : Nat → List Fd → Fd
  fdFresh : ∀ n used, 0 ≤ fd n used ∧ fd n used ∉ used
  socket : Nat → Bool
  /-- `socket` in `remove_taps`. -/
  removeSocket : Nat → Bool
  /-- `scandir`: the names in `/dev`. -/
  scandir : Nat → Option (List String)
  stat : Nat → Bool
  /-- `mkstemp` in `write_mapfile`: the name of a new file. -/
  mkstemp : Nat → List String → Option String
  mkstempFresh : ∀ n used fn, mkstemp n used = some fn → fn ∉ used
  /-- `fdopen` and the `fprintf`s of `write_mapfile`. -/
  mapfileWrite : Nat → Bool
  /-- The copy made by `copy_uefi_vars`, or the file being there already. -/
  copyVars : Nat → Bool
  varsDir : String
  /-- `inspect` for `loadcmd = auto`; `none`: it does not return. -/
  inspect : Nat → Option Bool
  createTap : Nat → List String → Option String
  createTapFresh : ∀ n used t, createTap n used = some t → t ∉ used
  setTapDescription : Nat → Bool
  addToBridge : Nat → Bool
  destroyTap : Nat → Bool
  /-- `open_err_logfile` and `open_comport`. -/
  openFile : Nat → Bool
  /-- `chown` in `chown_comport`. -/
  chown : Nat → Bool
  /-- `asprintf` and `open` in `suspend_bhyve`. -/
  openVmm : Nat → Bool
  /-- A running child that `waitpid` waits for and that was not killed exits. -/
  childEnds : Nat → Bool
  /-- The status of a child that `waitpid` had to wait for, or the unset variable after its failure. -/
  waitStatus : Nat → Nat
  nvlistUnpack : List UInt8 → Option NvList
  nvlistPack : NvList → Option (List UInt8)
  getpwuid : Int → Option String

/-- Events can be registered: `malloc` and `kevent` succeed. -/
structure Env.Registers (env : Env) : Prop where
  malloc : ∀ n, env.malloc n = true
  kevent : ∀ n, env.kevent n = true

/-- The system calls `fork`, `pipe`, `kevent`, `malloc`, `socket`, `scandir` and `stat` succeed. -/
structure Env.Reliable (env : Env) : Prop extends Env.Registers env where
  pipe : ∀ n, env.pipe n = true
  fork : ∀ n used, (env.fork n used).isSome
  socket : ∀ n, env.socket n = true ∧ env.removeSocket n = true
  scandir : ∀ n, (env.scandir n).isSome
  stat : ∀ n, env.stat n = true

/-! ## Access -/

/-- An all-zero `struct vm_conf`. -/
def VmConf.zero : VmConf :=
  { fbuf := { enable := 0, port := 0, ipaddr := none, vgaconf := none, password := none, width := 0,
              height := 0, wait := 0 }
    disks := [], isoes := [], nets := [], passthrues := [], keymap := none, backend := "",
    debugPort := none, ncpu := none, memory := none, name := "", comport := none, loader := none,
    loadcmd := none, installcmd := none, errLogfile := none, grubRunPartition := none, owner := 0,
    group := 0, boot := .no, hostbridge := .none, ndisks := 0, nisoes := 0, nnets := 0, bootDelay := 0,
    loaderTimeout := 0, stopTimeout := 0, mouse := false, wiredMemory := false, utctime := false,
    rebootOnChange := false, singleUser := false, install := false, bhyveloadLoader := none,
    bhyveloadEnvs := [], bhyveEnvs := [] }

namespace Daemon

/-- The entry of `vm_list` at an address. -/
def vm? (s : Daemon) (a : Addr) : Option VmEntry := s.vmList.find? (·.addr == a)

/-- The configuration entry at an address, freed or not. -/
def conf? (s : Daemon) (c : Addr) : Option ConfEntry := s.confs.find? (·.addr == c)

/-- The entry of `vm_list` at an address; the callbacks check that there is one. -/
def vmOf (s : Daemon) (a : Addr) : VmEntry :=
  (s.vm? a).getD
    { addr := a, conf := 0, state := .terminate, pid := -1, serial := 0, taps := [], mapfile := none,
      varsfile := none, assignedComport := none, infd := -1, outfd := -1, errfd := -1, logfd := -1,
      newConf := none, method := none, plConf := none }

/-- The configuration a pointer designates. -/
def confOf (s : Daemon) (c : Addr) : VmConf := ((s.conf? c).map (·.conf)).getD .zero

/-- `VM_CONF(vm_ent)`. -/
def vmConf (s : Daemon) (a : Addr) : VmConf := s.confOf (s.vmOf a).conf

/-- The socket buffer at an address. -/
def sock? (s : Daemon) (a : Addr) : Option SockBuf := s.sockList.find? (·.addr == a)

/-- What the pending timers of the VM at `a` were armed for. -/
def timersOf (s : Daemon) (a : Addr) : List (Option Purpose) :=
  (s.eventList.filter (·.isTimerOf a)).map (·.purpose)

/-- `pid` is an un-reaped child of the VM at `a`. -/
def isChild (s : Daemon) (a : Addr) (pid : Pid) : Bool := s.procs.any fun p => p.owner == a && p.pid == pid

/-- The child `pid` has exited and waits to be reaped. -/
def hasExited (s : Daemon) (pid : Pid) : Bool := s.procs.any fun p => p.pid == pid && p.status.isSome

/-- Update the entry of `vm_list` at an address. -/
def modVm (s : Daemon) (a : Addr) (f : VmEntry → VmEntry) : Daemon :=
  { s with vmList := s.vmList.map fun v => if v.addr == a then f v else v }

/-- Update the configuration entry at an address. -/
def modConf (s : Daemon) (c : Addr) (f : ConfEntry → ConfEntry) : Daemon :=
  { s with confs := s.confs.map fun e => if e.addr == c then f e else e }

/-- Update the socket buffer at an address. -/
def modSock (s : Daemon) (a : Addr) (f : SockBuf → SockBuf) : Daemon :=
  { s with sockList := s.sockList.map fun b => if b.addr == a then f b else b }

/-- Record an action. -/
def note (s : Daemon) (act : Action) : Daemon := { s with log := act :: s.log }

end Daemon

/-! ## Elementary programs -/

/-- Ask the system. -/
def ask {α : Type} (f : Nat → α) : Prog α := do
  let s ← get
  set { s with tick := s.tick + 1 }
  pure (f s.tick)

/-- The address of a new object. -/
def alloc : Prog Addr := do
  let s ← get
  set { s with next := s.next + 1 }
  pure s.next

/-- Run a program under a condition. -/
def whenever (c : Bool) (m : Prog Unit) : Prog Unit := if c then m else pure ()

/-- Record a memory error. -/
def fault (f : Fault) : Prog Unit := modify fun s => { s with faults := f :: s.faults }

/-- Record an action. -/
def note (act : Action) : Prog Unit := modify (·.note act)

/-- Write fields of a VM entry other than `VM_STATE`. -/
def modVm (a : Addr) (f : VmEntry → VmEntry) : Prog Unit := modify (·.modVm a f)

/-- `VM_STATE(vm_ent) = st`. -/
def setState (a : Addr) (st : State) : Prog Unit := modify fun s =>
  match s.vm? a with
  | none => s
  | some v => (s.modVm a ({ · with state := st })).note (.state a v.state st v.serial (s.timersOf a))

end Bmd
