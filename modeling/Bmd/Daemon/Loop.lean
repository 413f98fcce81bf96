import Bmd.Server.Command

/-!
# `Daemon.Loop` — the dispatchers of events and the daemon as a transition system

`event_loop` and `stop_virtual_machines` wait for one event at a time and call its callback. Between two
callbacks the outside world acts: children exit, clients send bytes, timers expire, configuration files are
edited. An `Input` is one such move together with all that the daemon reads from outside while it answers.
-/

namespace Bmd

/-! ## What a callback reads from outside -/

/-- The data a callback gets from the system calls it makes. -/
structure Io where
  /-- `time(NULL)` -/
  now : Int := 0
  /-- `read` of a pipe -/
  read : ReadResult := .eof
  /-- `recv` of a request -/
  recv : RecvResult := .again
  /-- `sendmsg` of a response -/
  send : SendResult := .again
  /-- `accept4`, with the credentials of the peer -/
  accept : Option (Option Xucred) := none
  /-- the configuration files, as `load_config_file` evaluates them -/
  load : Option (List LoadedConf) := none

/-! ## Callbacks of sockets and signals -/

/-- `stop_waiting_for(sock_buf, sb); destroy_sock_buf(sb);` -/
def dropConnection (sb : SockBuf) : Prog Unit := do
  stopWaitingFor (hasData (.sock sb.addr))
  destroySockBuf sb

/-- The connection as it is now. -/
def getSock (sb : SockBuf) : Prog SockBuf := do return ((← get).sock? sb.addr).getD sb

/-- The case 2 of `on_recv_sock_buf`: a request is complete. -/
def onRequest (env : Env) (sb : SockBuf) (io : Io) : Prog Unit := do
  if (← recvCommand env sb io.load) = 0 then
    modSock sb.addr (·.clear)
    let _ ← setSockBufWaitFlags env sb.addr .disable .enable
  else
    pure ()

/-- `on_recv_sock_buf` for an existing connection. -/
def recvConnection (env : Env) (sb : SockBuf) (io : Io) : Prog Unit := do
  let rc ← recvSockBuf env sb io.recv io.now
  let sb ← getSock sb
  if rc = 2 then
    onRequest env sb io
  else if rc = 1 then
    pure ()
  else
    dropConnection sb

/-- `on_recv_sock_buf`. -/
def onRecvSockBuf (env : Env) (a : Addr) (io : Io) : Prog Unit := do
  match (← get).sock? a with
  | none => fault (.dangling a)
  | some sb => recvConnection env sb io

/-- `on_send_sock_buf` for an existing connection. -/
def sendConnection (env : Env) (sb : SockBuf) (io : Io) : Prog Unit := do
  let rc ← sendSockBuf env sb io.send io.now
  let sb ← getSock sb
  if rc = 2 then
    modSock sb.addr (·.clearSend)
    let _ ← setSockBufWaitFlags env sb.addr .enable .disable
  else if rc = 1 then
    pure ()
  else
    dropConnection sb

/-- `on_send_sock_buf`. -/
def onSendSockBuf (env : Env) (a : Addr) (io : Io) : Prog Unit := do
  match (← get).sock? a with
  | none => fault (.dangling a)
  | some sb => sendConnection env sb io

/-- `on_accept_cmd_sock` once the connection is accepted. -/
def acceptConnection (env : Env) (now : Int) (peer : Option Xucred) : Prog Unit := do
  let fd ← newFd env
  match ← createSockBuf env fd now peer with
  | none => closeFd fd
  | some a =>
    if (← waitForSockBuf env a fd) < 0 then
      destroySockBuf (mkSockBuf a fd now peer)
    else
      pure ()

/-- `on_accept_cmd_sock`. -/
def onAcceptCmdSock (env : Env) (io : Io) : Prog Unit :=
  match io.accept with
  | none => pure ()
  | some peer => acceptConnection env io.now peer

/-- `on_sigterm`. -/
def onSigterm : Prog Unit := modify fun s => { s with sigterm := s.sigterm + 1 }

/-- `on_sighup`. -/
def onSighup (env : Env) (io : Io) : Prog Unit := do
  let _ ← reloadVirtualMachines env io.load

/-! ## Dispatching -/

/-- `(*event->cb)(ev.ident, event->data)`. What the callback of a plugin does is not modelled. -/
def callback (env : Env) (e : Event) (io : Io) : Prog Unit :=
  match e.cb, e.data with
  | .onTimer, .vm a => onTimer env a
  | .onVmExit, .vm a => onVmExit env a e.ident
  | .onReadVmOutput, .vm a => onReadVmOutput a e.ident io.read
  | .onRecvSockBuf, .sock a => onRecvSockBuf env a io
  | .onSendSockBuf, .sock a => onSendSockBuf env a io
  | .onAcceptCmdSock, _ => onAcceptCmdSock env io
  | .onSigterm, _ => onSigterm
  | .onSighup, _ => onSighup env io
  | _, _ => pure ()

/-- The record of the delivery of an event to a VM. -/
def Daemon.delivery (s : Daemon) (e : Event) : List Action :=
  match e.data with
  | .vm a => ((s.vm? a).map fun v => Action.deliver a e.cb e.purpose v.state v.serial).toList
  | _ => []

/-- The kernel delivers an event: a one-shot knote is gone. -/
def deliver (e : Event) : Prog Unit := modify fun s =>
  { s with
    eventList := s.eventList.map fun x => if x.addr == e.addr && e.oneshot then { x with armed := false } else x
    log := s.delivery e ++ s.log }

/-- The body of both dispatching loops for a received event. -/
def dispatch (env : Env) (e : Event) (io : Io) : Prog Unit := do
  deliver e
  callback env e io
  whenever e.oneshot (releaseEvent e.addr)

/-- The kernel may deliver the event: it is registered and enabled, and the exit of a process is reported
    only when the process does not run any more. -/
def Daemon.deliverable (s : Daemon) (e : Event) : Bool :=
  e.armed && e.flags != .disable &&
    !(e.filter == .proc && s.procs.any fun p => p.pid == e.ident && p.status.isNone)

/-- The event in `event_list` at an address. -/
def Daemon.event? (s : Daemon) (e : Addr) : Option Event := s.eventList.find? (·.addr == e)

/-! ## Termination -/

/-- The first loop of `stop_virtual_machines`, with its count. -/
def stopVms (env : Env) : List Addr → Prog Nat
  | [] => return 0
  | a :: rest => do
    let s ← get
    let v := s.vmOf a
    if v.state = .load ∨ v.state = .run then
      requestStop env a (s.confOf v.conf).stopTimeout
      return (← stopVms env rest) + 1
    else
      stopVms env rest

/-- `main` after `event_loop`, up to the loop of `stop_virtual_machines`. -/
def beginStop (env : Env) : Prog Unit := do
  closeFd (← get).cmdSock
  let count ← stopVms env ((← get).vmList.map (·.addr))
  modify fun s => { s with phase := .stopping count }

/-- `if (event->type == EVENT && event->kev.filter == EVFILT_PROC) count--;` -/
def countDown (e : Event) : Phase → Phase
  | .stopping (n + 1) => if e.type = .event ∧ e.filter = .proc then .stopping n else .stopping (n + 1)
  | p => p

/-! ## The transition system -/

/-- A move of the outside world. -/
inductive Input where
  /-- A child exits. -/
  | procExit (pid : Pid) (status : Nat)
  /-- `kevent` returns an event. -/
  | event (e : Addr) (io : Io)
  /-- `kevent` returns 0; the wait began at `start` and it is `now`. -/
  | timeout (start now : Int)
  /-- `kevent` fails. -/
  | keventError
  /-- A plugin registers an event. -/
  | pluginEvent (k : Kev)
  /-- `main` calls `stop_virtual_machines`. -/
  | stopVirtualMachines

/-- The dispatching loop of the phase is running. -/
def Daemon.waiting (s : Daemon) : Bool :=
  match s.phase with
  | .loop => s.sigterm == 0
  | .stopping n => n != 0
  | _ => false

/-- The state after a program has returned. -/
def Prog.exec {α : Type} (m : Prog α) (s : Daemon) : Option Daemon :=
  match m s with
  | .ok (_, s') => some s'
  | .error _ => none

/-- A child exits. -/
def Daemon.exitProc (s : Daemon) (pid : Pid) (status : Nat) : Daemon :=
  { s with procs := s.procs.map fun p => if p.pid == pid then { p with status := some status } else p }

/-- One move of the daemon; `none` when the move is not possible or ends the process. -/
def advance (env : Env) (s : Daemon) : Input → Option Daemon
  | .procExit pid status =>
    if s.procs.any fun p => p.pid == pid && p.status.isNone then some (s.exitProc pid status) else none
  | .event a io =>
    match s.event? a with
    | none => none
    | some e =>
      if s.waiting && s.deliverable e then
        Prog.exec (dispatch env e io) { s with phase := countDown e s.phase }
      else none
  | .timeout start now =>
    match s.phase, calcTimeout s commandTimeoutSec start with
    | .loop, some t =>
      if s.waiting && start + t ≤ now then Prog.exec (closeTimeoutSockBuf commandTimeoutSec now) s else none
    | _, _ => none
  | .keventError =>
    if s.waiting then some { s with phase := if s.phase = .loop then .left else .failed } else none
  | .pluginEvent k => Prog.exec (registerPluginEvent env k) s
  | .stopVirtualMachines =>
    if s.phase = .left ∨ (s.phase = .loop ∧ s.sigterm ≠ 0) then Prog.exec (beginStop env) s else none

/-- An event has been released twice. -/
def Daemon.spoilt (s : Daemon) : Bool := s.faults.any fun f => f matches .eventFree _

/-- One step of the daemon. After a double free the allocator has a record twice, and what is registered next makes of
    `event_list` something else than `eventList`: no steps are told from there on. -/
def step (env : Env) (s : Daemon) (i : Input) : Option Daemon := if s.spoilt then none else advance env s i

/-- The daemon before `main` has done anything. -/
def Daemon.empty (nmdmOffset : Int) : Daemon :=
  { vmList := [], vmConfList := [], confs := [], eventList := [], sockList := [], timerId := 0, sigterm := 0,
    phase := .loop, cmdSock := -1, nmdmOffset := nmdmOffset, procs := [], fds := [], pipes := [], taps := [], files := [],
    comOwners := [], next := 1, tick := 0, log := [], faults := [], freedEvents := [], applied := [] }

/-- `start_virtual_machines` and the registration of the command socket. -/
def enterLoop (env : Env) : Prog Unit := do
  if (← startVirtualMachines env) < 0 then
    modify fun s => { s with phase := .left }
  else if (← waitForCmdSock env (← get).cmdSock) < 0 then
    modify fun s => { s with phase := .left }
  else
    pure ()

/-- `main` up to the first wait of `event_loop`. -/
def startDaemon (env : Env) (load : List LoadedConf) : Prog Unit := do
  let list ← allocConfs load
  modify fun s => { s with vmConfList := list, applied := load.map (·.conf.name) }
  let sock ← newFd env
  modify fun s => { s with cmdSock := sock }
  enterLoop env

/-- The daemon when it first waits, or has failed to start. -/
def boot (env : Env) (load : List LoadedConf) (nmdmOffset : Int) : Option Daemon :=
  Prog.exec (startDaemon env load) (.empty nmdmOffset)

/-! ## A system without failures -/

/-- A number above all the numbers of a list. -/
def above (l : List Int) : Int := l.foldr (fun x m => max (x + 1) m) 1

theorem lt_above {l : List Int} {x : Int} (h : x ∈ l) : x < above l := by
  induction l with
  | nil => cases h
  | cons y l ih =>
    show x < max (y + 1) (above l)
    rcases List.mem_cons.mp h with rfl | h
    · omega
    · have := ih h; omega

theorem above_pos (l : List Int) : 0 < above l := by
  induction l with
  | nil => decide
  | cons y l ih =>
    show 0 < max (y + 1) (above l)
    omega

/-- The request of a client. -/
def request (command name : String) : NvList :=
  (NvList.nil.add "command" (.string command)).add "name" (.string name)

/-- Some requests, in place of the bytes that `nvlist_pack` makes of them. -/
def unpackRequest : List UInt8 → Option NvList
  | [0] => some (request "boot" "a")
  | [1] => some (request "shutdown" "a")
  | [2] => some (request "install" "a")
  | _ => none

/-- A system in which every call succeeds, except that there are no tap interfaces. -/
def Env.ideal : Env where
  malloc _ := true
  kevent _ := true
  pipe _ := true
  fork _ used := some (above used)
  forkFresh := by
    intro n used p h
    cases h
    exact ⟨above_pos used, fun hmem => Int.lt_irrefl _ (lt_above hmem)⟩
  fd _ used := above used
  fdFresh _ used := ⟨Int.le_of_lt (above_pos used), fun hmem => Int.lt_irrefl _ (lt_above hmem)⟩
  socket _ := true
  removeSocket _ := true
  scandir _ := some []
  stat _ := true
  mkstemp n used := if toString n ∈ used then none else some (toString n)
  mkstempFresh := by
    intro n used fn h
    split at h
    · cases h
    · next hnew => exact Option.some.inj h ▸ hnew
  mapfileWrite _ := true
  copyVars _ := true
  varsDir := "/var"
  inspect _ := some true
  createTap _ _ := none
  createTapFresh := by intro n used t h; cases h
  setTapDescription _ := true
  addToBridge _ := true
  destroyTap _ := true
  openFile _ := true
  chown _ := true
  openVmm _ := true
  childEnds _ := true
  waitStatus _ := 0
  nvlistUnpack := unpackRequest
  nvlistPack _ := some [0]
  getpwuid _ := none

/-- A section of the configuration file that sets `ncpu`, `memory`, `loader` and `boot` only. -/
def VmConf.section (name loader : String) (boot : Boot) : VmConf :=
  { finalizeVmConf (createVmConf name) with
    ncpu := some "1", memory := some "1G", loader := some loader, boot := boot }

/-- What is loaded for the section of a VM with the built-in backend, when there are no plugins. -/
def VmConf.load (conf : VmConf) (hb : conf.backend = "bhyve" := by rfl)
    (hc : checkConf conf = true := by rfl) : LoadedConf where
  conf := conf
  plData := [{ ent := 0, method := some .bhyve, plConf := .nil }]
  hasMethod := by rw [hb]; rfl
  checked := hc

/-- The VM `a` of the samples, which is booted without a loader. -/
def csmVm : LoadedConf := (VmConf.section "a" "csm" .yes).load

/-- The super-user connects to the command socket, whose event is at `cmd`; the connection gets the read event
    `ev`, through which a request of one byte is sent. -/
def clientSends (cmd ev : Addr) (byte : UInt8) (load : Option (List LoadedConf) := none) : List Input :=
  [.event cmd { accept := some (some { uid := 0, groups := [] }) },
   .event ev { recv := .data [0, 0, 0, 1] },
   .event ev { recv := .data [byte], load := load }]

theorem Env.ideal_reliable : Env.ideal.Reliable where
  malloc _ := rfl
  kevent _ := rfl
  pipe _ := rfl
  fork _ _ := rfl
  socket _ := ⟨rfl, rfl⟩
  scandir _ := rfl
  stat _ := rfl

end Bmd
