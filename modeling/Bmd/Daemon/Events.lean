import Bmd.Daemon.State

/-!
# `Daemon.Events` — descriptors, processes and the event list

The layer of `bmd.c` around `kqueue(2)`: registering events, dropping the ones a predicate selects, timers,
and the calls that create and reap kernel objects.
-/

namespace Bmd

/-! ## Descriptors and processes -/

/-- A new descriptor. -/
def newFd (env : Env) : Prog Fd := do
  let s ← get
  let fd := env.fd s.tick s.fds
  set { s with tick := s.tick + 1, fds := fd :: s.fds }
  pure fd

/-- `close(2)`; the kernel also drops the knotes of the descriptor. -/
def closeFd (fd : Fd) : Prog Unit := modify fun s =>
  { s with
    fds := s.fds.erase fd
    pipes := s.pipes.filter (·.2 != fd)
    eventList := s.eventList.map fun e =>
      if (e.filter == .read || e.filter == .write) && e.ident == fd then { e with armed := false } else e }

/-- `VM_CLOSE`: close a descriptor field of a VM when it is open. -/
def vmClose (fd : Fd) : Prog Unit := whenever (fd != -1) (closeFd fd)

/-- `pipe(2)` for a child of the VM at `a`: the read and the write end, or `none`. -/
def pipe (env : Env) (a : Addr) : Prog (Option (Fd × Fd)) := do
  if !(← ask env.pipe) then
    return none
  let r ← newFd env
  let w ← newFd env
  modify fun s => { s with pipes := (a, r) :: (a, w) :: s.pipes }
  return some (r, w)

/-- What a child for the VM at `a` is forked with. -/
def Daemon.launch (s : Daemon) (a : Addr) (kind : ProcKind) : Launch :=
  { vm := a, kind := kind, state := (s.vmOf a).state, comport := (s.vmConf a).comport,
    console := (s.vmOf a).assignedComport, assignedFor := (s.vmOf a).comportFor }

/-- `fork(2)` of a child for the VM at `a`: the pid and the process identity. -/
def fork (env : Env) (a : Addr) (kind : ProcKind) : Prog (Option (Pid × Nat)) := do
  let s ← get
  match env.fork s.tick (s.procs.map (·.pid)) with
  | none =>
    set { s with tick := s.tick + 1 }
    return none
  | some pid =>
    set { s with
      tick := s.tick + 1
      next := s.next + 1
      procs := { pid := pid, owner := a, serial := s.next, kind := kind, status := none } :: s.procs
      log := .spawn a s.next kind :: s.log
      launches := s.launch a kind :: s.launches }
    return some (pid, s.next)

/-- `pid` is a child that runs. -/
def Daemon.isRunning (s : Daemon) (pid : Pid) : Bool := s.procs.any fun p => p.pid == pid && p.status == none

/-- `waitpid(2)`: the status of the child `pid`, which is reaped. A running child is waited for; the call returns if it
    was killed, or exits by itself. Without such a child the caller's status variable keeps an arbitrary value. -/
def waitpid (env : Env) (pid : Pid) (killed : Bool) : Prog Nat := do
  let s ← get
  let unset ← ask env.waitStatus
  whenever (s.isRunning pid && !killed && !env.childEnds s.tick) (throw .hang)
  modify fun s => { s with procs := s.procs.filter (·.pid != pid) }
  match s.procs.find? (·.pid == pid) with
  | none => return unset
  | some p => return p.status.getD unset

/-- `kill(2)`, called for the VM at `a`. -/
def kill (a : Addr) (pid : Pid) (sig : Signal) : Prog Unit :=
  modify fun s => s.note (.kill a pid sig (s.isChild a pid))

/-! ## Registering events -/

/-- The part of a `struct kevent` the caller sets; `kdata` is its `data` field. -/
structure Kev where
  ident : Int
  filter : Filter
  flags : EvFlags
  kdata : Int := 0

/-- A timer with a negative period is `EINVAL`. -/
def Kev.invalid (k : Kev) : Bool := k.filter == .timer && k.kdata < 0

/-- `kevent_set` for new events; with no change there is nothing that could fail. -/
def keventSet (env : Env) (kevs : List Kev) : Prog Bool := do
  let ok ← ask env.kevent
  return (ok || kevs.isEmpty) && kevs.all fun k => !k.invalid

/-- The record `register_event0` fills in. -/
def mkEvent (addr : Addr) (type : EventType) (k : Kev) (cb : Callback) (data : Data)
    (purpose : Option Purpose) : Event :=
  { addr := addr, type := type, ident := k.ident, filter := k.filter, flags := k.flags, data := data,
    cb := cb, armed := true, purpose := purpose }

/-- `LIST_INSERT_HEAD(&event_list, ev, next)`. -/
def Daemon.watch (s : Daemon) (e : Event) : Daemon :=
  { s with eventList := e :: s.eventList, memory := s.memory.insertHead e }

/-- `register_event0`. -/
def registerEvent0 (env : Env) (type : EventType) (k : Kev) (cb : Callback) (data : Data)
    (purpose : Option Purpose := none) : Prog Int := do
  if !(← ask env.malloc) then
    return -1
  let addr ← alloc
  if !(← keventSet env [k]) then
    return -1
  modify (·.watch (mkEvent addr type k cb data purpose))
  return 0

/-- `register_event`. -/
def registerEvent (env : Env) (k : Kev) (cb : Callback) (data : Data)
    (purpose : Option Purpose := none) : Prog Int :=
  registerEvent0 env .event k cb data purpose

/-- The first loop of `register_events`: one `malloc` an event; `none` when one of them failed. -/
def allocEvents (env : Env) : Nat → Prog (Option (List Addr))
  | 0 => return some []
  | n + 1 => do
    let ok ← ask env.malloc
    let addr ← alloc
    let rest ← allocEvents env n
    return if ok then rest.map (addr :: ·) else none

/-- The last loop of `register_events`: `LIST_INSERT_HEAD` in order. -/
def insertEvents : List Addr → List (Kev × Callback × Data) → Prog Unit
  | addr :: addrs, (k, cb, data) :: rest => do
    modify (·.watch (mkEvent addr .event k cb data none))
    insertEvents addrs rest
  | _, _ => return ()

/-- `register_events`. -/
def registerEvents (env : Env) (l : List (Kev × Callback × Data)) : Prog Int := do
  match ← allocEvents env l.length with
  | none => return -1
  | some addrs =>
    if !(← keventSet env (l.map (·.1))) then
      return -1
    insertEvents addrs l
    return 0

/-! ## Dropping events -/

/-- `vm_output`. -/
def vmOutput (v : VmEntry) (e : Event) : Bool :=
  e.data == .vm v.addr && e.filter == .read && (e.ident == v.outfd || e.ident == v.errfd)

/-- `vm_output_and_timers`. -/
def vmOutputAndTimers (v : VmEntry) (e : Event) : Bool :=
  e.data == .vm v.addr &&
    (e.filter == .timer || e.filter == .read && (e.ident == v.outfd || e.ident == v.errfd))

/-- `sock_buf` and `vm_entry`: every event whose data is the object. -/
def hasData (d : Data) (e : Event) : Bool := e.data == d

/-- `stop_waiting_for`: drop and free the events that the predicate selects. -/
def stopWaitingFor (fn : Event → Bool) : Prog Unit := modify fun s =>
  { s with
    eventList := s.eventList.filter fun e => !fn e
    freedEvents := (s.eventList.filter fn).map (·.addr) ++ s.freedEvents
    memory := s.memory.sweep fn }

/-- A change with the flag `EV_DELETE`: the kernel looks at the identifier and the filter. -/
structure Deletion where
  ident : Int
  filter : Filter
  deriving DecidableEq, Repr

/-- `kev[i] = ev->kev; kev[i].flags = EV_DELETE;` -/
def Event.deletion (e : Event) : Deletion := { ident := e.ident, filter := e.filter }

/-- `nitems(kev)` in `stop_waiting_for`. -/
def batchSize : Nat := 5

/-- `stop_waiting_for` on its way through `event_list`: the events it has passed and kept, the first `i` elements of
    `kev`, the arguments of its calls of `kevent_set`, and the events it has freed. -/
structure Sweep where
  list : List Event
  kev : List Deletion
  sent : List (List Deletion)
  freed : List Addr

/-- `kevent_set(kev, i); i = 0;` A failure is only reported. -/
def Sweep.flush (w : Sweep) : Sweep := { w with kev := [], sent := w.sent ++ [w.kev] }

/-- The body of the loop. -/
def Sweep.visit (fn : Event → Data → Bool) (data : Data) (w : Sweep) (ev : Event) : Sweep :=
  if fn ev data then
    let w := { w with kev := w.kev ++ [ev.deletion] }
    let w := if w.kev.length ≥ batchSize then w.flush else w
    { w with freed := w.freed ++ [ev.addr] }
  else
    { w with list := w.list ++ [ev] }

/-- `stop_waiting_for` with its batches; `stopWaitingFor` is what the daemon gets to see of it. -/
def sweepEvents (fn : Event → Data → Bool) (data : Data) (eventList : List Event) : Sweep :=
  let w := eventList.foldl (Sweep.visit fn data) { list := [], kev := [], sent := [], freed := [] }
  if w.kev.length > 0 then w.flush else w

/-- `LIST_REMOVE(event, next); free(event)` in the dispatchers. -/
def releaseEvent (e : Addr) : Prog Unit := modify fun s =>
  if s.eventList.any (·.addr == e) then
    { s with
      eventList := s.eventList.filter (·.addr != e), freedEvents := e :: s.freedEvents, memory := s.memory.remove e }
  else
    { s with faults := .eventFree e :: s.faults, memory := s.memory.removeAgain e }

/-! ## The waits of the daemon -/

/-- `set_timer`. -/
def setTimer (env : Env) (a : Addr) (purpose : Purpose) (second : Int) : Prog Int := do
  modify fun s => { s with timerId := s.timerId + 1, log := .arm a purpose second :: s.log }
  let s ← get
  registerEvent env { ident := s.timerId, filter := .timer, flags := .oneshot, kdata := second }
    .onTimer (.vm a) (some purpose)

/-- `wait_for_vm`. -/
def waitForVm (env : Env) (a : Addr) (pid : Pid) : Prog Int :=
  registerEvent env { ident := pid, filter := .proc, flags := .oneshot } .onVmExit (.vm a)

/-- `wait_for_vm_output`: the descriptors that are open. -/
def waitForVmOutput (env : Env) (v : VmEntry) : Prog Int :=
  registerEvents env <| ([v.outfd, v.errfd].filter (· != -1)).map fun fd =>
    ({ ident := fd, filter := .read, flags := .add }, .onReadVmOutput, .vm v.addr)

/-- `wait_for_sock_buf`. The `EV_DISABLE` of the write event is passed as `fflags`, so both are enabled. -/
def waitForSockBuf (env : Env) (sb : Addr) (fd : Fd) : Prog Int :=
  registerEvents env
    [({ ident := fd, filter := .read, flags := .add }, .onRecvSockBuf, .sock sb),
     ({ ident := fd, filter := .write, flags := .add }, .onSendSockBuf, .sock sb)]

/-- `wait_for_cmd_sock`. -/
def waitForCmdSock (env : Env) (sock : Fd) : Prog Int :=
  registerEvent env { ident := sock, filter := .read, flags := .add } .onAcceptCmdSock .null

/-- `plugin_wait_for_process` and `plugin_set_timer`: a plugin registers an event with data of its own. -/
def registerPluginEvent (env : Env) (k : Kev) : Prog Int := registerEvent0 env .plugin k .plugin .null

/-- The events `set_sock_buf_wait_flags` finds: its walk ends at the second one. -/
def sockBufEvents (s : Daemon) (sb : Addr) : List Event :=
  (s.eventList.filter fun e => e.data == .sock sb && (e.filter == .read || e.filter == .write)).take 2

/-- The flags an event gets from `set_sock_buf_wait_flags`: the last read and the last write event of the
    walk are the ones that are kept in `ev[0]` and `ev[1]`. -/
def waitFlags (found : List Event) (recvF sendF : EvFlags) (e : Event) : Event :=
  if (found.reverse.find? (·.filter == .read)).any (·.addr == e.addr) then { e with flags := recvF }
  else if (found.reverse.find? (·.filter == .write)).any (·.addr == e.addr) then { e with flags := sendF }
  else e

/-- `set_sock_buf_wait_flags`. -/
def setSockBufWaitFlags (env : Env) (sb : Addr) (recvF sendF : EvFlags) : Prog Int := do
  let s ← get
  let found := sockBufEvents s sb
  if found.isEmpty then
    return 0
  if !(← ask env.kevent) then
    return -1
  modify fun s => { s with eventList := s.eventList.map (waitFlags found recvF sendF) }
  return 0

end Bmd
