import Bmd.Daemon.Loop
import Bmd.Lib.Keyed

/-!
# `Correctness.Footprint` — what the functions of the daemon touch

A relation between states is kept by a function if it does not see what the function touches. The classes here say
what a relation does not see: a component of the state (`Changes`), a part of the entry of a VM (`Writes`, `Enters`),
events that are registered or dropped (`Watches`), descriptors that are closed (`Closes`), the marks on configurations
(`Marks`) and the counters (`Counts`). The instances go once through all the functions, from the elementary ones to the
commands, and say besides in which ways these may end the process.
-/

namespace Bmd

open Lib Lib.Prog

-- the instance for a function is as large as the function
set_option synthInstance.maxSize 1024

variable {R : Daemon → Daemon → Prop} {E : Halt → Prop} {env : Env} {s s' : Daemon} {a b c : Addr} {v : VmEntry}
  {β : Type}

/-! ## What a relation does not see -/

/-- The components of the state that are told apart, events and connections aside. -/
inductive Store where
  /-- the history, the processes and all else that is not listed here -/
  | records
  | vms | confs | fds | pipes | taps | files | launches

/-- The state without a component. -/
def Daemon.sans (s : Daemon) : Store → Daemon
  | .records => { s with
      vmConfList := [], timerId := 0, sigterm := 0, phase := .loop, cmdSock := 0, nmdmOffset := 0, procs := [],
      comOwners := [], tick := 0, log := [], faults := [], freedEvents := [], applied := [], forced := [], exits := [] }
  | .vms => { s with vmList := [] }
  | .confs => { s with confs := [] }
  | .fds => { s with fds := [] }
  | .pipes => { s with pipes := [] }
  | .taps => { s with taps := [] }
  | .files => { s with files := [] }
  | .launches => { s with launches := [] }

theorem sans_eventList (s : Daemon) (k : Store) : (s.sans k).eventList = s.eventList := by cases k <;> rfl

theorem sans_memory (s : Daemon) (k : Store) : (s.sans k).memory = s.memory := by cases k <;> rfl

theorem sans_sockList (s : Daemon) (k : Store) : (s.sans k).sockList = s.sockList := by cases k <;> rfl

theorem sans_next (s : Daemon) (k : Store) : (s.sans k).next = s.next := by cases k <;> rfl

/-- The parts of an entry of `vm_list` that are told apart, its state aside. -/
inductive Part where
  /-- the configuration, and the one to come -/
  | binding
  | process
  | taps | mapfile | vars | console
  /-- the pipes to the child -/
  | wires
  | log | method

/-- The entry without a part. -/
def VmEntry.sans (v : VmEntry) : Part → VmEntry
  | .binding => { v with conf := 0, newConf := none }
  | .process => { v with pid := 0, serial := 0 }
  | .taps => { v with taps := [] }
  | .mapfile => { v with mapfile := none }
  | .vars => { v with varsfile := none }
  | .console => { v with assignedComport := none, comportFor := none }
  | .wires => { v with infd := -1, outfd := -1, errfd := -1 }
  | .log => { v with logfd := -1 }
  | .method => { v with method := none, plConf := none }

theorem sans_state (v : VmEntry) (p : Part) : (v.sans p).state = v.state := by cases p <;> rfl

/-- A condition on components or parts that is decided when an instance is looked for. -/
class Holds (b : Bool) : Prop where
  holds : b = true

instance : Holds true := ⟨rfl⟩

/-- The relation does not see the component. -/
class Changes (R : Daemon → Daemon → Prop) (k : Store) : Prop where
  change : ∀ {s s' : Daemon}, s'.sans k = s.sans k → R s s'

/-- The relation does not see the part of the VM at `a`. -/
class Writes (R : Daemon → Daemon → Prop) (p : Part) (a : Addr) : Prop where
  write : ∀ {s : Daemon} {f : VmEntry → VmEntry}, (∀ v, (f v).sans p = v.sans p) → R s (s.modVm a f)

/-- The relation does not see that the VM at `a` is put in a state. -/
class Enters (R : Daemon → Daemon → Prop) (st : State) (a : Addr) : Prop where
  enter : ∀ {s : Daemon}, R s (s.modVm a ({ · with state := st }))

/-- The relation does not see marks on a configuration. -/
class Marks (R : Daemon → Daemon → Prop) : Prop where
  mark : ∀ {s : Daemon} {c : Addr} {f : ConfEntry → ConfEntry}, (∀ e, (f e).addr = e.addr) →
    (∀ e, (f e).conf.backend = e.conf.backend) → (∀ e, (f e).plData = e.plData) →
    (∀ e, (f e).conf.comport = e.conf.comport) → R s (s.modConf c f)

/-- The relation does not see the counters. -/
class Counts (R : Daemon → Daemon → Prop) : Prop where
  tick : ∀ {s : Daemon}, R s { s with tick := s.tick + 1 }
  next : ∀ {s : Daemon}, R s { s with next := s.next + 1 }

/-- What `stop_waiting_for` and the dispatchers look at in an event. -/
def Event.key (e : Event) : Addr × Int × Filter × Data × Callback := (e.addr, e.ident, e.filter, e.data, e.cb)

/-- The relation does not see events, those of connections aside. -/
class Watches (R : Daemon → Daemon → Prop) : Prop where
  watch : ∀ {s : Daemon} {e : Event}, (∀ b, e.data ≠ .sock b) → R s (s.watch e)
  unwatch : ∀ {fn : Event → Bool}, (∀ e b, e.data = .sock b → fn e = false) → (∀ e e', e.key = e'.key → fn e = fn e') →
    Keeps R (stopWaitingFor fn)

/-- The relation does not see that a descriptor is closed. -/
class Closes (R : Daemon → Daemon → Prop) : Prop where
  close : ∀ fd, Keeps R (closeFd fd)

/-- The relation does not see events at all. -/
class Eventless (R : Daemon → Daemon → Prop) : Prop where
  events : ∀ {s : Daemon} {l : List Event} {freed : List Addr} {m : EventMemory},
    R s { s with eventList := l, freedEvents := freed, memory := m }

theorem Changes.of_proj {f : Daemon → β} {k : Store} (hR : ∀ {s s' : Daemon}, f s' = f s → R s s')
    (hk : ∀ s, f (s.sans k) = f s) : Changes R k := ⟨fun {s s'} h => hR (by rw [← hk s', h, hk s])⟩

theorem Writes.of_proj {f : VmEntry → β} {p : Part}
    (hR : ∀ {s : Daemon} {g : VmEntry → VmEntry}, (∀ v, f (g v) = f v) → (∀ v, (g v).state = v.state) → R s (s.modVm a g))
    (hp : ∀ v, f (v.sans p) = f v) : Writes R p a where
  write {_ g} h := hR (fun v => by rw [← hp (g v), h v, hp v]) fun v => by rw [← sans_state (g v) p, h v, sans_state v p]

instance [Eventless R] : Watches R where
  watch _ := Eventless.events
  unwatch _ _ := .modify fun _ => Eventless.events

instance [Changes R .vms] (p : Part) : Writes R p a := ⟨fun _ => Changes.change (k := .vms) rfl⟩

instance [Changes R .vms] (st : State) : Enters R st a := ⟨Changes.change (k := .vms) rfl⟩

instance [Changes R .confs] : Marks R := ⟨fun _ _ _ _ => Changes.change (k := .confs) rfl⟩

/-- A write to the history. -/
theorem modify_records [Changes R .records] {f : Daemon → Daemon} (hf : ∀ s, (f s).sans .records = s.sans .records) :
    Behaves R E (modify f : Bmd.Prog Unit) := .modify fun s => Changes.change (hf s)

variable {f : VmEntry → VmEntry}

theorem modVm_written (p : Part) [Writes R p a] {u : Unit} (h : modVm a f s = .ok (u, s'))
    (hf : ∀ v, (f v).sans p = v.sans p) : R s s' := by
  rw [of_modify h]
  exact Writes.write hf

theorem modVm_writes (p : Part) [Writes R p a] (hf : ∀ v, (f v).sans p = v.sans p) :
    Behaves R E (modVm a f) := .modify fun _ => Writes.write hf

variable [IsPreorder Daemon R]

instance [Eventless R] [Changes R .fds] [Changes R .pipes] : Closes R where
  close fd := .modify fun s => by
    have hfds : R s { s with fds := s.fds.erase fd } := Changes.change (k := .fds) rfl
    have hpipes : R { s with fds := s.fds.erase fd } { s with
      fds := s.fds.erase fd, pipes := s.pipes.filter (·.2 != fd) } := Changes.change (k := .pipes) rfl
    exact trans_of R (trans_of R hfds hpipes) Eventless.events

instance [Eventless R] [Changes R .records] (x : Addr) : Behaves R E (releaseEvent x) := .modify fun s => by
  split
  · exact Eventless.events
  · have hmem : R s { s with memory := s.memory.removeAgain x } := Eventless.events
    refine trans_of R hmem ?_
    exact Changes.change (k := .records) rfl

/-! ## Elementary programs -/

instance : Behaves R E (getVm a) := by
  unfold getVm
  infer_instance

instance : Behaves R E (getVmConf a) := by
  unfold getVmConf
  infer_instance

theorem whenever_keeps (x : Bool) {m : Bmd.Prog Unit} (h : Keeps R m) : Keeps R (whenever x m) :=
  Keeps.ite (fun _ => h) fun _ => .pure _

instance (x : Bool) (m : Bmd.Prog Unit) [Behaves R E m] : Behaves R E (whenever x m) := by
  unfold whenever
  infer_instance

section Counts

variable [Counts R]

instance {α : Type} (f : Nat → α) : Behaves R E (ask f) := .of_run fun _ => ⟨_, _, rfl, Counts.tick⟩

instance : Behaves R E alloc := .of_run fun _ => ⟨_, _, rfl, Counts.next⟩

instance (kevs : List Kev) : Behaves R E (keventSet env kevs) := by
  unfold keventSet
  infer_instance

instance allocEvents_behaves : ∀ n, Behaves R E (allocEvents env n)
  | 0 => inferInstanceAs (Behaves R E (pure _))
  | n + 1 => by
    have ih := allocEvents_behaves n
    unfold allocEvents
    infer_instance

instance : Behaves R E (activateTaps env) := by
  unfold activateTaps
  infer_instance

instance copyNetConfs_behaves : ∀ l, Behaves R E (copyNetConfs env l)
  | [] => inferInstanceAs (Behaves R E (pure _))
  | _ :: rest => by
    have ih := copyNetConfs_behaves rest
    unfold copyNetConfs
    infer_instance

instance [Allows E .hang] : Behaves R E (inspect env) := by
  refine .bind inferInstance fun o => ?_
  split <;> infer_instance

instance [Allows E .hang] (conf : VmConf) : Behaves R E (createLoadCommand env conf) := by
  unfold createLoadCommand
  split <;> infer_instance

instance : Behaves R E (varsPath env a) := by
  refine .bind inferInstance fun v => ?_
  split <;> infer_instance

instance (ucred : Xucred) : Behaves R E (listCommand env ucred) := by
  unfold listCommand
  infer_instance

end Counts

/-! ## The history -/

section Records

variable [Changes R .records]

instance (act : Action) : Behaves R E (note act) := modify_records fun _ => rfl

instance (f : Fault) : Behaves R E (fault f) := modify_records fun _ => rfl

instance (pid : Pid) (sig : Signal) : Behaves R E (kill a pid sig) := modify_records fun _ => rfl

instance (opened : Bool) : Behaves R E (recordForced a opened) := modify_records fun _ => rfl

instance (conf : VmConf) (status : Nat) : Behaves R E (recordExit v conf status) := modify_records fun _ => rfl

instance : Behaves R E (confListRemove c) := modify_records fun s => by split <;> rfl

instance : Behaves R E (acpiPoweroffBhyve a) := by
  unfold acpiPoweroffBhyve
  infer_instance

section Suspending

variable [Counts R]

instance (how : SuspendHow) : Behaves R E (suspendBhyve env a how) := by
  unfold suspendBhyve
  infer_instance

instance : Behaves R E (poweroffBhyve env a) := by
  unfold poweroffBhyve
  infer_instance

instance : Behaves R E (resetBhyve env a) := by
  unfold resetBhyve
  infer_instance

end Suspending

instance (st : State) (how : DownHow) : Behaves R E (noteDown a st how) := by
  have hnote : Behaves R E (modify fun s => s.note (.down a st (s.timersOf a)) : Bmd.Prog Unit) :=
    modify_records fun _ => rfl
  unfold noteDown
  infer_instance

instance (st : State) [Enters R st a] : Behaves R E (setState a st) := by
  refine .modify fun s => ?_
  split
  · exact refl_of R s
  · have hst : R s (s.modVm a ({ · with state := st })) := Enters.enter
    refine trans_of R hst ?_
    exact Changes.change (k := .records) rfl

instance [Counts R] [Allows E .hang] (pid : Pid) (killed : Bool) : Behaves R E (waitpid env pid killed) := by
  have hreap : Behaves R E (modify fun s => { s with procs := s.procs.filter (·.pid != pid) } : Bmd.Prog Unit) :=
    modify_records fun _ => rfl
  refine .bind inferInstance fun s => .bind inferInstance fun _ => .bind inferInstance fun _ => .bind hreap fun _ => ?_
  split <;> infer_instance

instance [Counts R] [Changes R .launches] (kind : ProcKind) : Behaves R E (fork env a kind) := by
  refine .get_run fun s => ?_
  split
  · exact ⟨_, _, rfl, Counts.tick⟩
  · refine ⟨_, _, rfl, ?_⟩
    have htick : R s { s with tick := s.tick + 1 } := Counts.tick
    have hnext := Counts.next (R := R) (s := { s with tick := s.tick + 1 })
    have hchild : R { s with tick := s.tick + 1, next := s.next + 1 } { s with
      tick := s.tick + 1, next := s.next + 1, launches := s.launch a kind :: s.launches } :=
      Changes.change (k := .launches) rfl
    refine trans_of R (trans_of R (trans_of R htick hnext) hchild) ?_
    exact Changes.change (k := .records) rfl

end Records

/-! ## Events -/

section Watches

variable [Counts R] [Watches R]

theorem registerEvent0_behaves {type : EventType} {k : Kev} {cb : Callback} {data : Data} {purpose : Option Purpose}
    (h : ∀ b, data ≠ .sock b) : Behaves R E (registerEvent0 env type k cb data purpose) := by
  have hins : ∀ x, Behaves R E (modify (·.watch (mkEvent x type k cb data purpose)) : Bmd.Prog Unit) := fun x =>
    .modify fun _ => Watches.watch h
  unfold registerEvent0
  infer_instance

omit [Counts R] in
theorem insertEvents_behaves : ∀ addrs (l : List (Kev × Callback × Data)), (∀ x ∈ l, ∀ b, x.2.2 ≠ .sock b) →
    Behaves R E (insertEvents addrs l)
  | _ :: addrs, _ :: rest, h =>
    .bind (.modify fun _ => Watches.watch (h _ List.mem_cons_self)) fun _ =>
      insertEvents_behaves addrs rest fun x hx => h x (List.mem_cons_of_mem _ hx)
  | [], _, _ => inferInstanceAs (Behaves R E (pure _))
  | _ :: _, [], _ => inferInstanceAs (Behaves R E (pure _))

theorem registerEvents_behaves {l : List (Kev × Callback × Data)} (h : ∀ x ∈ l, ∀ b, x.2.2 ≠ .sock b) :
    Behaves R E (registerEvents env l) := by
  have hins := fun addrs => insertEvents_behaves (R := R) (E := E) addrs l h
  unfold registerEvents
  infer_instance

omit [IsPreorder Daemon R] [Counts R] in
theorem stopWaitingFor_behaves {fn : Event → Bool} (h : ∀ e b, e.data = .sock b → fn e = false)
    (hkey : ∀ e e', e.key = e'.key → fn e = fn e') : Behaves R E (stopWaitingFor fn) :=
  .of_run fun s => ⟨_, _, rfl, Watches.unwatch h hkey s _ _ rfl⟩

instance (k : Kev) (cb : Callback) (purpose : Option Purpose) :
    Behaves R E (registerEvent env k cb (.vm a) purpose) := registerEvent0_behaves (by simp)

instance (fd : Fd) : Behaves R E (waitForCmdSock env fd) := registerEvent0_behaves (by simp)

instance (k : Kev) : Behaves R E (registerPluginEvent env k) := registerEvent0_behaves (by simp)

instance : Behaves R E (stopWaitingFor (vmOutput v)) :=
  stopWaitingFor_behaves (fun e b he => by simp [vmOutput, he]) fun e e' h => by
    simp_all [Event.key, vmOutput]

instance : Behaves R E (stopWaitingFor (vmOutputAndTimers v)) :=
  stopWaitingFor_behaves (fun e b he => by simp [vmOutputAndTimers, he]) fun e e' h => by
    simp_all [Event.key, vmOutputAndTimers]

instance : Behaves R E (stopWaitingFor (hasData (.vm a))) :=
  stopWaitingFor_behaves (fun e b he => by simp [hasData, he]) fun e e' h => by simp_all [Event.key, hasData]

instance (fd : Fd) : Behaves R E (stopWaitingFor (vmReadOf a fd)) :=
  stopWaitingFor_behaves (fun e b he => by simp [vmReadOf, he]) fun e e' h => by simp_all [Event.key, vmReadOf]

instance (pid : Pid) : Behaves R E (waitForVm env a pid) := by
  unfold waitForVm
  infer_instance

instance : Behaves R E (waitForVmOutput env v) := by
  refine registerEvents_behaves fun x hx b => ?_
  obtain ⟨fd, -, rfl⟩ := List.mem_map.mp hx
  simp

instance : Behaves R E (waitForProcess env a) := by
  unfold waitForProcess
  infer_instance

variable [Changes R .records]

instance (p : Purpose) (second : Int) : Behaves R E (setTimer env a p second) := by
  have harm : Behaves R E (modify fun s =>
      { s with timerId := s.timerId + 1, log := .arm a p second :: s.log } : Bmd.Prog Unit) :=
    modify_records fun _ => rfl
  unfold setTimer
  infer_instance

instance (conf : VmConf) : Behaves R E (setLoaderTimer env a conf) := by
  unfold setLoaderTimer
  infer_instance

instance (second : Int) : Behaves R E (requestStop env a second) := by
  unfold requestStop
  infer_instance

instance stopVms_behaves : ∀ l, Behaves R E (stopVms env l)
  | [] => inferInstanceAs (Behaves R E (pure _))
  | _ :: rest => by
    have ih := stopVms_behaves rest
    unfold stopVms
    infer_instance

end Watches

/-! ## Descriptors -/

section Closes

variable [Closes R]

instance (fd : Fd) : Behaves R E (closeFd fd) := .of_run fun s => ⟨_, _, rfl, Closes.close fd s _ _ rfl⟩

instance (fd : Fd) : Behaves R E (vmClose fd) := by
  unfold vmClose
  infer_instance

instance : ∀ p, Behaves R E (closePipes p)
  | none => inferInstanceAs (Behaves R E (pure _))
  | some _ => by
    unfold closePipes
    infer_instance

variable [Writes R .wires a]

instance : ∀ p, Behaves R E (keepReadEnds a p)
  | none => inferInstanceAs (Behaves R E (pure _))
  | some _ => .bind inferInstance fun _ => .bind inferInstance fun _ => modVm_writes .wires fun _ => rfl

instance : ∀ p, Behaves R E (keepInput a p)
  | none => modVm_writes .wires fun _ => rfl
  | some _ => .bind inferInstance fun _ => modVm_writes .wires fun _ => rfl

instance (fd : Fd) : Behaves R E (endOfOutput fd a) :=
  .bind inferInstance fun _ => .bind (modVm_writes .wires fun _ => rfl) fun _ => inferInstance

instance [Writes R .log a] (fd : Fd) : ∀ r, Behaves R E (writeErrLog fd a r)
  | .eof => inferInstanceAs (Behaves R E (endOfOutput fd a))
  | .error => inferInstanceAs (Behaves R E (pure _))
  | .data bytes write => by
    have hlog : Behaves R E (modVm a ({ · with logfd := -1 })) := modVm_writes .log fun _ => rfl
    unfold writeErrLog
    infer_instance

variable [Counts R] [Watches R]

instance : Behaves R E (finishLoad a) := by
  have hin : Behaves R E (modVm a ({ · with infd := -1 })) := modVm_writes .wires fun _ => rfl
  unfold finishLoad
  infer_instance

instance [Writes R .log a] [Changes R .records] (fd : Fd) (r : ReadResult) : Behaves R E (onReadVmOutput a fd r) := by
  refine .bind inferInstance fun s => ?_
  split <;> infer_instance

end Closes

section Fds

variable [Counts R] [Changes R .fds]

instance : Behaves R E (newFd env) := .of_run fun s => ⟨_, _, rfl, by
  have htick : R s { s with tick := s.tick + 1 } := Counts.tick
  refine trans_of R htick ?_
  exact Changes.change (k := .fds) rfl⟩

instance (conf : VmConf) : Behaves R E (openErrLogfile env conf) := by
  unfold openErrLogfile
  infer_instance

instance (com : Option String) : Behaves R E (openComport env com) := by
  unfold openComport
  split <;> infer_instance

instance (com : Option String) (res : NvList) : Behaves R E (addComport env com res) := by
  unfold addComport
  infer_instance

instance : Behaves R E (bootResponse env a) := by
  unfold bootResponse
  infer_instance

instance [Writes R .log a] (conf : VmConf) : Behaves R E (openLog env a conf) := by
  have hlog : ∀ fd, Behaves R E (modVm a ({ · with logfd := fd })) := fun fd => modVm_writes .log fun _ => rfl
  unfold openLog
  infer_instance

instance [Closes R] [Writes R .log v.addr] (old new : VmConf) : Behaves R E (reopenLog env v old new) := by
  have hlog : ∀ fd, Behaves R E (modVm v.addr ({ · with logfd := fd })) := fun fd => modVm_writes .log fun _ => rfl
  unfold reopenLog
  infer_instance

variable [Changes R .pipes]

instance : Behaves R E (pipe env a) := by
  have hrec : ∀ r w, Behaves R E (modify fun s => { s with pipes := (a, r) :: (a, w) :: s.pipes } : Bmd.Prog Unit) :=
    fun r w => .modify fun _ => Changes.change (k := .pipes) rfl
  unfold pipe
  infer_instance

instance [Closes R] (x : Bool) : Behaves R E (outputPipes env a x) := by
  unfold outputPipes
  infer_instance

instance (cmd : Bool) : Behaves R E (inputPipe env a cmd) := by
  unfold inputPipe
  infer_instance

end Fds

/-! ## Tap interfaces and files -/

section Taps

variable [Counts R] [Changes R .taps]

instance : Behaves R E (createTap env) := by
  refine .get_run fun s => ?_
  have htick : R s { s with tick := s.tick + 1 } := Counts.tick
  split
  · exact ⟨_, _, rfl, htick⟩
  · refine ⟨_, _, rfl, trans_of R htick ?_⟩
    exact Changes.change (k := .taps) rfl

instance (t : String) : Behaves R E (destroyTap env t) := by
  have herase : Behaves R E (modify fun s => { s with taps := s.taps.erase t } : Bmd.Prog Unit) :=
    .modify fun _ => Changes.change (k := .taps) rfl
  unfold destroyTap
  infer_instance

instance destroyTaps_behaves : ∀ l, Behaves R E (destroyTaps env l)
  | [] => inferInstanceAs (Behaves R E (pure _))
  | nc :: rest => by
    have ih := destroyTaps_behaves rest
    unfold destroyTaps
    split <;> infer_instance

variable [Writes R .taps a]

omit [IsPreorder Daemon R] [Counts R] [Changes R .taps] in
theorem setTaps_behaves (l : List NetConf) : Behaves R E (modVm a ({ · with taps := l })) :=
  modVm_writes .taps fun _ => rfl

instance : Behaves R E (removeTaps env a) := by
  have hset := setTaps_behaves (R := R) (E := E) (a := a) []
  unfold removeTaps
  infer_instance

instance createTaps_behaves : ∀ done l, Behaves R E (createTaps env a done l)
  | _, [] => inferInstanceAs (Behaves R E (pure _))
  | done, nc :: rest => by
    have ih := fun done => createTaps_behaves done rest
    have hset := fun l => setTaps_behaves (R := R) (E := E) (a := a) l
    refine .bind inferInstance fun ok => ?_
    split
    · infer_instance
    · refine .bind inferInstance fun r => ?_
      split
      · infer_instance
      · dsimp only
        infer_instance

instance : Behaves R E (assignTaps env a) := by
  have hset := fun l => setTaps_behaves (R := R) (E := E) (a := a) l
  refine .bind inferInstance fun v => ?_
  split <;> infer_instance

instance : Behaves R E (setUpTaps env a) := by
  unfold setUpTaps
  infer_instance

end Taps

section Files

variable [Changes R .files]

instance (fn : String) : Behaves R E (unlink fn) := .modify fun _ => Changes.change (k := .files) rfl

instance (o : Option String) : Behaves R E (unlinkMapfile o) := by
  unfold unlinkMapfile
  split <;> infer_instance

variable [Counts R]

instance : Behaves R E (mkstemp env) := by
  refine .get_run fun s => ?_
  have htick : R s { s with tick := s.tick + 1 } := Counts.tick
  split
  · exact ⟨_, _, rfl, htick⟩
  · refine ⟨_, _, rfl, trans_of R htick ?_⟩
    exact Changes.change (k := .files) rfl

instance [Writes R .mapfile a] : Behaves R E (writeMapfile env a) := by
  have hset : ∀ m, Behaves R E (modVm a ({ · with mapfile := m })) := fun m => modVm_writes .mapfile fun _ => rfl
  refine .bind inferInstance fun o => ?_
  split
  · infer_instance
  · next fn => exact .bind inferInstance fun v => .bind inferInstance fun _ => .bind (hset _) fun _ => inferInstance

end Files

/-! ## Fields of the entry -/

instance [Counts R] [Writes R .vars a] : Behaves R E (copyUefiVars env a) := by
  have hvars : ∀ fn, Behaves R E (modVm a ({ · with varsfile := some fn })) := fun fn => modVm_writes .vars fun _ => rfl
  unfold copyUefiVars
  infer_instance

instance [Writes R .method a] : Behaves R E (setVmMethod a) := by
  have hset : ∀ m p, Behaves R E (modVm a ({ · with method := m, plConf := p })) := fun m p =>
    modVm_writes .method fun _ => rfl
  refine .bind inferInstance fun s => ?_
  dsimp only
  split <;> infer_instance

instance [Writes R .process a] (pid : Pid) (serial : Nat) : Behaves R E (setPid a pid serial) :=
  modVm_writes .process fun _ => rfl

section Console

variable [Counts R] [Writes R .console a]

instance : Behaves R E (assignNmdm env a) := by
  have hcom : ∀ com o, Behaves R E (modVm a ({ · with assignedComport := some com, comportFor := o })) := fun com o =>
    modVm_writes .console fun _ => rfl
  unfold assignNmdm
  infer_instance

instance : Behaves R E (assignComport env a) := by
  have hcom : ∀ com, Behaves R E (modVm a ({ · with assignedComport := some com, comportFor := some com })) := fun com =>
    modVm_writes .console fun _ => rfl
  refine .bind inferInstance fun v => .bind inferInstance fun conf => ?_
  split <;> infer_instance

end Console

/-! ## Configurations -/

section Marks

variable [Marks R]

instance (x : Bool) : Behaves R E (setInstall c x) :=
  .modify fun _ => Marks.mark (fun _ => rfl) (fun _ => rfl) (fun _ => rfl) fun _ => rfl

instance (install : Bool) : Behaves R E (applyStyle a install) := by
  unfold applyStyle
  infer_instance

variable [Changes R .records]

instance : Behaves R E (freeVmConfEntry c) := .modify fun s => by
  split
  · exact Marks.mark (fun _ => rfl) (fun _ => rfl) (fun _ => rfl) fun _ => rfl
  · exact Changes.change (k := .records) rfl

instance freeConfs_behaves : ∀ l, Behaves R E (freeConfs l)
  | [] => inferInstanceAs (Behaves R E (pure _))
  | _ :: rest => by
    have ih := freeConfs_behaves rest
    unfold freeConfs
    infer_instance

instance searchConf_behaves (name : String) : ∀ r l, Behaves R E (searchConf name r l)
  | _, [] => inferInstanceAs (Behaves R E (pure _))
  | _, _ :: rest => by
    have ih := fun r => searchConf_behaves name r rest
    unfold searchConf
    infer_instance

instance [Counts R] [Watches R] : Behaves R E (freeVmEntry v) := by
  unfold freeVmEntry
  infer_instance

end Marks

/-! ## Starting and stopping -/

section Starting

variable [Counts R] [Changes R .records] [Changes R .fds] [Changes R .pipes] [Closes R] [Writes R .wires a]
  [Writes R .process a] [∀ kind, Behaves R E (fork env a kind)]

instance [Enters R .load a] : Behaves R E (bhyveLoad env a) := by
  refine .bind inferInstance fun v => .bind inferInstance fun p => ?_
  split <;> infer_instance

instance [Enters R .load a] [Allows E .hang] : Behaves R E (grubLoad env a) := by
  have hclose : Behaves R E (modVm a ({ · with outfd := -1, errfd := -1 })) := modVm_writes .wires fun _ => rfl
  refine .bind inferInstance fun conf => .bind inferInstance fun cmd => .bind inferInstance fun ifd => ?_
  split <;> infer_instance

variable [Enters R .run a] [Allows E (.exit 1)]

instance : Behaves R E (execBhyve env a) := by
  refine .bind inferInstance fun v => .bind inferInstance fun p => ?_
  split
  · infer_instance
  · refine .bind inferInstance fun child => ?_
    split <;> infer_instance

instance [Allows E .hang] [Enters R .load a] [Changes R .files] [Writes R .mapfile a] [Writes R .vars a] :
    Behaves R E (startBhyve env a) := by
  refine .bind inferInstance fun v => ?_
  split
  · infer_instance
  · refine .bind inferInstance fun conf => ?_
    split <;> infer_instance

end Starting

section Stopping

variable [Closes R] [Changes R .files] [Writes R .wires a] [Writes R .log a] [Writes R .mapfile a]

instance : Behaves R E (releaseBhyve a) := by
  -- the fields belong to three parts of the entry, which are written one after the other
  have hset : Behaves R E (modVm a
      ({ · with infd := -1, outfd := -1, errfd := -1, logfd := -1, mapfile := none })) := by
    refine .modify fun s => ?_
    have hwires : R s (s.modVm a ({ · with infd := -1, outfd := -1, errfd := -1 })) :=
      Writes.write (p := .wires) fun _ => rfl
    have hlog := Writes.write (R := R) (p := .log) (a := a)
      (s := s.modVm a ({ · with infd := -1, outfd := -1, errfd := -1 })) (f := ({ · with logfd := -1 })) fun _ => rfl
    have hmap := Writes.write (R := R) (p := .mapfile) (a := a)
      (s := (s.modVm a ({ · with infd := -1, outfd := -1, errfd := -1 })).modVm a ({ · with logfd := -1 }))
      (f := ({ · with mapfile := none })) fun _ => rfl
    have hall := trans_of R (trans_of R hwires hlog) hmap
    have heq : ((s.modVm a ({ · with infd := -1, outfd := -1, errfd := -1 })).modVm a ({ · with logfd := -1 })).modVm a
        ({ · with mapfile := none }) =
        s.modVm a ({ · with infd := -1, outfd := -1, errfd := -1, logfd := -1, mapfile := none }) := by
      simp only [Daemon.modVm, List.map_map]
      congr 1
      refine List.map_congr_left fun v _ => ?_
      by_cases hv : v.addr = a <;> simp [hv]
    rw [heq] at hall
    exact hall
  refine .bind inferInstance fun v => .bind inferInstance fun _ => ?_
  exact .bind inferInstance fun _ => .bind inferInstance fun _ => inferInstance

variable [Counts R] [Changes R .records] [Changes R .taps] [Writes R .taps a] [Enters R .terminate a]

instance : Behaves R E (cleanupVirtualMachine env a) := by
  unfold cleanupVirtualMachine cleanupBhyve
  infer_instance

instance [Allows E .hang] : Behaves R E (abandonProcess env a) := by
  unfold abandonProcess
  infer_instance

variable [Watches R]

instance : Behaves R E (stopVirtualMachine env a) := by
  unfold stopVirtualMachine
  infer_instance

instance [Changes R .fds] [Allows E .hang] : Behaves R E (superviseProcess env a) := by
  unfold superviseProcess
  infer_instance

end Stopping

/-! ## Commands -/

section Commands

variable [Counts R] [Changes R .records] [Watches R] [Enters R .stop v.addr]

instance (conf : VmConf) : ∀ how, Behaves R E (downVm env v conf how)
  | .shutdown => .bind inferInstance fun _ => inferInstance
  | .reset => inferInstanceAs (Behaves R E (resetBhyve env v.addr))
  | .poweroff => .bind inferInstance fun _ => inferInstance

instance [Enters R .restart v.addr] (conf : VmConf) : Behaves R E (rebootVm env v conf) := by
  unfold rebootVm
  split <;> infer_instance

instance [Changes R .fds] [Closes R] : Behaves R E (beginStop env) := by
  have hphase : ∀ n, Behaves R E (modify fun s => { s with phase := .stopping n } : Bmd.Prog Unit) := fun n =>
    modify_records fun _ => rfl
  unfold beginStop
  infer_instance

end Commands

/-! ## Relations that see no virtual machine -/

section Aloof

variable [∀ k, Changes R k] [Counts R] [Watches R] [Closes R]

instance (f : VmEntry → VmEntry) : Behaves R E (modVm a f) := .modify fun _ => Changes.change (k := .vms) rfl

instance : Behaves R E (vmListRemove a) := .modify fun _ => Changes.change (k := .vms) rfl

instance : Behaves R E (createVmEntry env c) := by
  refine .bind inferInstance fun ok => ?_
  split
  · infer_instance
  · refine .bind inferInstance fun a => .get_run fun s => ?_
    split
    · exact ⟨_, _, rfl, refl_of R s⟩
    · exact ⟨_, _, rfl, Changes.change (k := .vms) rfl⟩

instance allocConfs_behaves : ∀ l, Behaves R E (allocConfs l)
  | [] => inferInstanceAs (Behaves R E (pure _))
  | l :: rest => by
    have ih := allocConfs_behaves rest
    have hins : ∀ x, Behaves R E (modify fun s => { s with confs := mkConfEntry x l :: s.confs } : Bmd.Prog Unit) :=
      fun x => .modify fun _ => Changes.change (k := .confs) rfl
    unfold allocConfs
    infer_instance

instance (load : Option (List LoadedConf)) : Behaves R E (loadConfigFile load) := by
  unfold loadConfigFile
  split <;> infer_instance

instance (d : Addr) : Behaves R E (replaceVmConf b d) := by
  have hlist : Behaves R E (modify fun s => { s with vmConfList := d :: s.vmConfList } : Bmd.Prog Unit) :=
    modify_records fun _ => rfl
  unfold replaceVmConf
  infer_instance

instance (load : Option (List LoadedConf)) : Behaves R E (searchAndReplaceVmConf b load) := by
  unfold searchAndReplaceVmConf
  infer_instance

instance chownDevice_behaves (fn : String) (uid : Int) : ∀ tries, Behaves R E (chownDevice env fn uid tries)
  | 0 => inferInstanceAs (Behaves R E (pure ()))
  | tries + 1 => by
    have ih := chownDevice_behaves fn uid tries
    have hown : Behaves R E (modify fun s => { s with comOwners := (fn, uid) :: s.comOwners } : Bmd.Prog Unit) :=
      modify_records fun _ => rfl
    unfold chownDevice
    infer_instance

instance (com : Option String) (ucred : Xucred) : Behaves R E (chownComport env com ucred) := by
  unfold chownComport
  split <;> infer_instance

variable [Allows E (.exit 1)] [Allows E .hang]

instance : Behaves R E (startVirtualMachine env a) := by
  unfold startVirtualMachine
  infer_instance

instance (install : Bool) (load : Option (List LoadedConf)) : Behaves R E (bootVm env v install load) := by
  unfold bootVm
  infer_instance

instance : Behaves R E (onTimer env a) := by
  refine .bind inferInstance fun s => ?_
  split
  · infer_instance
  · unfold onTimerVm
    split <;> infer_instance

instance : Behaves R E (onVmStopped env a) := by
  unfold onVmStopped
  infer_instance

instance : Behaves R E (onVmRestart env a) := by
  unfold onVmRestart
  infer_instance

instance : Behaves R E (onVmRemoved env a) := by
  unfold onVmRemoved
  infer_instance

instance (ident : Pid) : Behaves R E (onVmExit env a ident) := by
  refine .bind inferInstance fun s => ?_
  split
  · infer_instance
  · next v _ =>
    have hwait : Behaves R E (modify fun s => s.note (.wait v.addr ident v.pid (s.hasExited v.pid)) : Bmd.Prog Unit) :=
      modify_records fun _ => rfl
    refine .bind hwait fun _ => .bind inferInstance fun status => .bind inferInstance fun conf =>
      .bind inferInstance fun _ => ?_
    unfold onVmExitStatus
    split <;> infer_instance

instance (conf : VmConf) : Behaves R E (bootNewVm env a conf) := by
  unfold bootNewVm
  infer_instance

instance startVms_behaves : ∀ l, Behaves R E (startVms env l)
  | [] => inferInstanceAs (Behaves R E (pure _))
  | _ :: rest => by
    have ih := startVms_behaves rest
    unfold startVms
    infer_instance

instance : Behaves R E (startVirtualMachines env) := by
  refine .bind (registerEvents_behaves (by simp)) fun _ => ?_
  infer_instance

instance (conf : VmConf) : Behaves R E (changeBoot env v c conf) := by
  unfold changeBoot
  split <;> infer_instance

instance : Behaves R E (reloadConf env c) := by
  refine .bind inferInstance fun s => ?_
  dsimp only
  split
  · unfold reloadNewVm
    infer_instance
  · unfold reloadOldVm
    infer_instance

instance reloadConfs_behaves : ∀ l, Behaves R E (reloadConfs env l)
  | [] => inferInstanceAs (Behaves R E (pure _))
  | _ :: rest => by
    have ih := reloadConfs_behaves rest
    unfold reloadConfs
    infer_instance

instance : Behaves R E (settleVm env a) := by
  refine .bind inferInstance fun s => ?_
  split
  · infer_instance
  · split
    · unfold dropVm
      split <;> infer_instance
    · unfold adoptConf
      infer_instance

instance settleVms_behaves : ∀ l, Behaves R E (settleVms env l)
  | [] => inferInstanceAs (Behaves R E (pure _))
  | _ :: rest => by
    have ih := settleVms_behaves rest
    unfold settleVms
    infer_instance

instance (load : Option (List LoadedConf)) : Behaves R E (reloadVirtualMachines env load) := by
  have hclear : Behaves R E clearNewConfs := .modify fun _ => Changes.change (k := .vms) rfl
  have hlist : ∀ l : List Addr, Behaves R E (modify fun s =>
      { s with vmConfList := l, applied := l.map fun c => (s.confOf c).name } : Bmd.Prog Unit) := fun l =>
    modify_records fun _ => rfl
  unfold reloadVirtualMachines reloadList finishReload
  infer_instance

instance (io : Io) : Behaves R E (onSighup env io) := by
  unfold onSighup
  infer_instance

instance (load : List LoadedConf) : Behaves R E (startDaemon env load) := by
  have hleft : Behaves R E (modify fun s => { s with phase := .left } : Bmd.Prog Unit) := modify_records fun _ => rfl
  have hlist : ∀ list, Behaves R E (modify fun s =>
      { s with vmConfList := list, applied := load.map (·.conf.name) } : Bmd.Prog Unit) := fun _ =>
    modify_records fun _ => rfl
  have hsock : ∀ sock, Behaves R E (modify fun s => { s with cmdSock := sock } : Bmd.Prog Unit) := fun _ =>
    modify_records fun _ => rfl
  unfold startDaemon enterLoop
  infer_instance

instance [Allows E .abort] (nv : NvList) (key : String) : Behaves R E (nvlistGetString nv key) := by
  unfold nvlistGetString
  split <;> infer_instance

instance (nv : NvList) (ucred : Xucred) [Behaves R E (nvlistGetString nv "name")] :
    Behaves R E (requestedVm nv ucred) := by
  unfold requestedVm
  infer_instance

instance runCommand_behaves (nv : NvList) (ucred : Xucred) (load : Option (List LoadedConf))
    [Behaves R E (requestedVm nv ucred)] : ∀ cmd, Behaves R E (runCommand env nv ucred load cmd)
  | .list => inferInstanceAs (Behaves R E (listCommand env ucred))
  | .boot | .install => by
    unfold runCommand boot0Command
    infer_instance
  | .poweroff | .reset | .shutdown => by
    unfold runCommand vmDownCommand
    infer_instance
  | .showcomport => by
    unfold runCommand showcomportCommand
    infer_instance
  | .showvgaport => by
    unfold runCommand showvgaportCommand
    infer_instance

end Aloof

/-! ## The relation that sees nothing -/

instance (k : Store) : Changes Unrelated k := ⟨fun _ => trivial⟩

instance : Counts Unrelated := ⟨trivial, trivial⟩

instance : Eventless Unrelated := ⟨trivial⟩

end Bmd
