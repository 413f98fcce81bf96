import Bmd.Correctness.Tracking

/-!
# `Correctness.Holdings` — what the virtual machines hold

A VM holds a configuration and perhaps the one to come, the method and plugin data it found there, tap interfaces
and a map file. Few functions take or release one of these: `Still` says that a piece of code does neither and puts
no VM into `TERMINATE`. `Kept` lists what is left to show of a property so that the daemon carries it on: all but the
second pass of a reload, which hands over the configurations.
-/

namespace Bmd

open Lib Lib.Prog

variable {s s' t t' : Daemon} {a b c : Addr} {v : VmEntry} {env : Env} {u : Unit} {e : Event} {io : Io} {i : Input}
  {f : VmEntry → VmEntry}

/-! ## Holdings -/

/-- What an entry of `vm_list` holds. -/
structure Holding where
  addr : Addr
  conf : Addr
  newConf : Option Addr
  method : Option VmMethod
  plConf : Option (Addr × Nat)
  taps : List NetConf
  mapfile : Option String

def VmEntry.holding (v : VmEntry) : Holding :=
  ⟨v.addr, v.conf, v.newConf, v.method, v.plConf, v.taps, v.mapfile⟩

/-- Nothing is taken or released, and no VM comes to rest. -/
structure Still (s s' : Daemon) : Prop where
  vms : s'.vmList.map VmEntry.holding = s.vmList.map VmEntry.holding
  idle : ∀ v' ∈ s'.vmList, v'.state = .terminate → ∃ v ∈ s.vmList, v.holding = v'.holding ∧ v.state = .terminate
  methodOf : s'.methodOf = s.methodOf
  taps : s'.taps = s.taps
  files : s'.files = s.files

instance : IsPreorder Daemon Still where
  refl _ := ⟨rfl, fun v hv hst => ⟨v, hv, rfl, hst⟩, rfl, rfl, rfl⟩
  trans _ _ _ h h' := by
    refine ⟨h'.vms.trans h.vms, fun w hw hst => ?_, h'.methodOf.trans h.methodOf, h'.taps.trans h.taps,
      h'.files.trans h.files⟩
    obtain ⟨v', hv', heq', hst'⟩ := h'.idle w hw hst
    obtain ⟨v, hv, heq, hst⟩ := h.idle v' hv' hst'
    exact ⟨v, hv, heq.trans heq', hst⟩

namespace Still

/-- A change that `vm_list`, the configurations, the taps and the files have no part in. -/
theorem of_eq (hv : s'.vmList = s.vmList) (hc : s'.confs = s.confs) (ht : s'.taps = s.taps)
    (hf : s'.files = s.files) : Still s s' := by
  refine ⟨by rw [hv], fun v hm hst => ⟨v, hv ▸ hm, rfl, hst⟩, ?_, ht, hf⟩
  funext x
  simp only [Daemon.methodOf, Daemon.conf?, hc]

theorem addrs (h : Still s s') : s'.vmList.map (·.addr) = s.vmList.map (·.addr) := by
  have hm := congrArg (List.map Holding.addr) h.vms
  rw [List.map_map, List.map_map] at hm
  exact hm

theorem isSome (h : Still s s') (hv : (s.vm? a).isSome) : (s'.vm? a).isSome := by
  obtain ⟨v, hm, rfl⟩ := vm?_isSome_iff.mp hv
  have hmem : v.addr ∈ s'.vmList.map (·.addr) := by
    rw [h.addrs]
    exact List.mem_map_of_mem hm
  obtain ⟨w, hw, heq⟩ := List.mem_map.mp hmem
  exact vm?_isSome_iff.mpr ⟨w, hw, heq⟩

/-- What a VM holds is found at its address, whatever else is in the entry. -/
theorem holding? (h : Still s s') (a : Addr) : (s'.vm? a).map VmEntry.holding = (s.vm? a).map VmEntry.holding :=
  Keyed.map_find? (k := VmEntry.addr) Holding.addr (fun _ => rfl) h.vms a

end Still

/-! ## Pipes -/

/-- The fields of an entry for the pipes to its child. -/
structure Wires where
  addr : Addr
  infd : Fd
  outfd : Fd
  errfd : Fd

def VmEntry.wires (v : VmEntry) : Wires := ⟨v.addr, v.infd, v.outfd, v.errfd⟩

/-- No pipe is made and no field for one is written, and no VM comes to rest or to run. -/
structure Unpiped (s s' : Daemon) : Prop where
  vms : s'.vmList.map VmEntry.wires = s.vmList.map VmEntry.wires
  settled : ∀ v' ∈ s'.vmList, v'.state = .terminate ∨ v'.state = .run →
    ∃ v ∈ s.vmList, v.wires = v'.wires ∧ v.state = v'.state
  pipes : s'.pipes ⊆ s.pipes

instance : IsPreorder Daemon Unpiped where
  refl _ := ⟨rfl, fun v hv _ => ⟨v, hv, rfl, rfl⟩, fun _ => id⟩
  trans _ _ _ h h' := by
    refine ⟨h'.vms.trans h.vms, fun w hw hst => ?_, fun _ hx => h.pipes (h'.pipes hx)⟩
    obtain ⟨v', hv', heq', hst'⟩ := h'.settled w hw hst
    obtain ⟨v, hv, heq, hst''⟩ := h.settled v' hv' (hst' ▸ hst)
    exact ⟨v, hv, heq.trans heq', hst''.trans hst'⟩

namespace Unpiped

theorem of_eq (hv : s'.vmList = s.vmList) (hp : s'.pipes ⊆ s.pipes) : Unpiped s s' :=
  ⟨by rw [hv], fun v hm _ => ⟨v, hv ▸ hm, rfl, rfl⟩, hp⟩

/-- The fields of a VM are found at its address. -/
theorem wires? (h : Unpiped s s') (a : Addr) : (s'.vm? a).map VmEntry.wires = (s.vm? a).map VmEntry.wires :=
  Keyed.map_find? (k := VmEntry.addr) Wires.addr (fun _ => rfl) h.vms a

end Unpiped

/-! ## Consoles -/

/-- What an entry says about the console of its VM. -/
def VmEntry.console (v : VmEntry) : Addr × Addr × Option String × Option String :=
  (v.addr, v.conf, v.assignedComport, v.comportFor)

/-- No console is assigned, no VM changes its configuration, and no child is forked. -/
structure Muted (s s' : Daemon) : Prop where
  vms : s'.vmList.map VmEntry.console = s.vmList.map VmEntry.console
  comports : ∀ c, (s'.confOf c).comport = (s.confOf c).comport
  launches : s'.launches = s.launches

instance : IsPreorder Daemon Muted where
  refl _ := ⟨rfl, fun _ => rfl, rfl⟩
  trans _ _ _ h h' :=
    ⟨h'.vms.trans h.vms, fun c => (h'.comports c).trans (h.comports c), h'.launches.trans h.launches⟩

/-- The console of a VM is found at its address. -/
theorem Muted.console? (h : Muted s s') (a : Addr) : (s'.vm? a).map VmEntry.console = (s.vm? a).map VmEntry.console :=
  Keyed.map_find? (k := VmEntry.addr) (·.1) (fun _ => rfl) h.vms a

theorem Muted.of_eq (hv : s'.vmList = s.vmList) (hc : s'.confs = s.confs) (hl : s'.launches = s.launches) :
    Muted s s' := by
  refine ⟨by rw [hv], fun c => ?_, hl⟩
  simp only [Daemon.confOf, Daemon.conf?, hc]

theorem modVm_muted (hf : ∀ v, (f v).console = v.console) : Muted s (s.modVm a f) :=
  ⟨Keyed.map_update (k := VmEntry.addr) hf s.vmList a, fun _ => rfl, rfl⟩

theorem comport_modConf {f : ConfEntry → ConfEntry} {x : Addr} (ha : ∀ e, (f e).addr = e.addr)
    (hcom : ∀ e, (f e).conf.comport = e.conf.comport) :
    ((s.modConf c f).confOf x).comport = (s.confOf x).comport := by
  unfold Daemon.confOf
  rw [conf?_modConf ha]
  split
  · next hx =>
    subst hx
    cases s.conf? x with
    | none => rfl
    | some e => exact hcom e
  · rfl

/-- Nothing is taken or released, pipes and consoles included. -/
structure Dry (s s' : Daemon) : Prop where
  still : Still s s'
  unpiped : Unpiped s s'
  muted : Muted s s'

instance : IsPreorder Daemon Dry where
  refl s := ⟨refl_of Still s, refl_of Unpiped s, refl_of Muted s⟩
  trans _ _ _ h h' := ⟨trans_of Still h.1 h'.1, trans_of Unpiped h.2 h'.2, trans_of Muted h.3 h'.3⟩

theorem Dry.wires? (h : Dry s s') (hv : s.vm? a = some v) : ∃ w, s'.vm? a = some w ∧ w.wires = v.wires := by
  have hw := h.unpiped.wires? a
  rw [hv] at hw
  exact Option.map_eq_some_iff.mp hw

/-- The method of a configuration does not depend on its `install` flag, nor on its being freed. -/
theorem methodOf_modConf {f : ConfEntry → ConfEntry} (ha : ∀ e, (f e).addr = e.addr)
    (hb : ∀ e, (f e).conf.backend = e.conf.backend) (hp : ∀ e, (f e).plData = e.plData) :
    (s.modConf c f).methodOf = s.methodOf := by
  funext x
  unfold Daemon.methodOf
  rw [conf?_modConf ha]
  split
  · next hx =>
    subst hx
    cases s.conf? x with
    | none => rfl
    | some e =>
      simp only [Option.map_some, Option.bind_some]
      rw [hb, hp]
  · rfl

/-! ## What the relations do not see -/

theorem modVm_still (hh : ∀ v, (f v).holding = v.holding)
    (hst : ∀ v, (f v).state = .terminate → v.state = .terminate) : Still s (s.modVm a f) := by
  refine ⟨?_, fun v' hv' hst' => ?_, rfl, rfl, rfl⟩
  · exact Keyed.map_update (k := VmEntry.addr) hh s.vmList a
  · obtain ⟨v, hv, rfl⟩ := List.mem_map.mp hv'
    split at hst'
    · next hva =>
      refine ⟨v, hv, ?_, hst v hst'⟩
      rw [if_pos hva, hh]
    · next hva =>
      refine ⟨v, hv, ?_, hst'⟩
      rw [if_neg hva]

theorem modVm_unpiped (hw : ∀ v, (f v).wires = v.wires)
    (hst : ∀ v, (f v).state = .terminate ∨ (f v).state = .run → v.state = (f v).state) : Unpiped s (s.modVm a f) := by
  refine ⟨?_, fun v' hv' hst' => ?_, fun _ => id⟩
  · exact Keyed.map_update (k := VmEntry.addr) hw s.vmList a
  · obtain ⟨v, hv, rfl⟩ := List.mem_map.mp hv'
    split at hst'
    · next hva =>
      refine ⟨v, hv, ?_, ?_⟩
      · rw [if_pos hva, hw]
      · rw [if_pos hva]
        exact hst v hst'
    · next hva =>
      refine ⟨v, hv, ?_, ?_⟩ <;> rw [if_neg hva]

theorem isSome_modVm (hf : ∀ v, (f v).addr = v.addr) (hv : (s.vm? a).isSome) : ((s.modVm a f).vm? a).isSome := by
  rw [vm?_modVm hf]
  simpa using hv

/-! ### Holdings -/

instance : Counts Still := ⟨.of_eq rfl rfl rfl rfl, .of_eq rfl rfl rfl rfl⟩

instance : Eventless Still := ⟨.of_eq rfl rfl rfl rfl⟩

instance : Marks Still where
  mark ha hb hp _ := ⟨rfl, fun v hv hst => ⟨v, hv, rfl, hst⟩, methodOf_modConf ha hb hp, rfl, rfl⟩

instance Still.changes {k : Store} [h : Holds (k matches .records | .fds | .pipes | .launches)] : Changes Still k := by
  refine .of_proj (f := fun t => (t.vmList, t.confs, t.taps, t.files)) (fun h => ?_)
    (by cases k <;> first | exact fun _ => rfl | cases h.holds)
  simp only [Prod.mk.injEq] at h
  exact .of_eq h.1 h.2.1 h.2.2.1 h.2.2.2

instance Still.writes {p : Part} [h : Holds (p matches .process | .vars | .console | .wires | .log)] :
    Writes Still p a :=
  .of_proj (fun hh hs => modVm_still hh fun v hst => (hs v).symm.trans hst)
    (by cases p <;> first | exact fun _ => rfl | cases h.holds)

instance Still.enters {st : State} [h : Holds (st matches .load | .run | .stop | .restart | .remove)] :
    Enters Still st a := by
  refine ⟨modVm_still (fun _ => rfl) fun v hst => ?_⟩
  obtain rfl : st = .terminate := hst
  cases h.holds

/-! ### Pipes -/

instance : Counts Unpiped := ⟨.of_eq rfl fun _ => id, .of_eq rfl fun _ => id⟩

instance : Eventless Unpiped := ⟨.of_eq rfl fun _ => id⟩

instance : Closes Unpiped where
  close _ := .modify fun _ => .of_eq rfl fun _ hx => (List.mem_filter.mp hx).1

instance : Marks Unpiped := ⟨fun _ _ _ _ => .of_eq rfl fun _ => id⟩

instance Unpiped.changes {k : Store} [h : Holds (k matches .records | .fds | .taps | .files | .launches)] :
    Changes Unpiped k := by
  refine .of_proj (f := fun t => (t.vmList, t.pipes)) (fun h => ?_)
    (by cases k <;> first | exact fun _ => rfl | cases h.holds)
  exact .of_eq (Prod.mk.inj h).1 fun _ hx => (Prod.mk.inj h).2 ▸ hx

instance Unpiped.writes {p : Part}
    [h : Holds (p matches .process | .taps | .mapfile | .vars | .console | .log | .method)] :
    Writes Unpiped p a := .of_proj (fun hw hs => modVm_unpiped hw fun v _ => (hs v).symm)
      (by cases p <;> first | exact fun _ => rfl | cases h.holds)

instance Unpiped.enters {st : State} [h : Holds (st matches .stop | .restart | .remove)] : Enters Unpiped st a := by
  refine ⟨modVm_unpiped (fun _ => rfl) fun v hst => ?_⟩
  rcases hst with rfl | rfl <;> cases h.holds

/-! ### Consoles -/

instance : Counts Muted := ⟨.of_eq rfl rfl rfl, .of_eq rfl rfl rfl⟩

instance : Eventless Muted := ⟨.of_eq rfl rfl rfl⟩

instance : Marks Muted := ⟨fun ha _ _ hcom => ⟨rfl, fun _ => comport_modConf ha hcom, rfl⟩⟩

instance Muted.changes {k : Store} [h : Holds (k matches .records | .fds | .pipes | .taps | .files)] :
    Changes Muted k := by
  refine .of_proj (f := fun t => (t.vmList, t.confs, t.launches)) (fun h => ?_)
    (by cases k <;> first | exact fun _ => rfl | cases h.holds)
  simp only [Prod.mk.injEq] at h
  exact .of_eq h.1 h.2.1 h.2.2

instance Muted.writes {p : Part} [h : Holds (p matches .process | .taps | .mapfile | .vars | .wires | .log | .method)] :
    Writes Muted p a := .of_proj (fun hc _ => modVm_muted hc)
      (by cases p <;> first | exact fun _ => rfl | cases h.holds)

instance (st : State) : Enters Muted st a := ⟨modVm_muted fun _ => rfl⟩

/-! ### All three -/

theorem Dry.of_eq (hv : s'.vmList = s.vmList) (hc : s'.confs = s.confs) (ht : s'.taps = s.taps) (hf : s'.files = s.files)
    (hp : s'.pipes ⊆ s.pipes) (hl : s'.launches = s.launches) : Dry s s' :=
  ⟨.of_eq hv hc ht hf, .of_eq hv hp, .of_eq hv hc hl⟩

instance : Counts Dry := ⟨⟨Counts.tick, Counts.tick, Counts.tick⟩, ⟨Counts.next, Counts.next, Counts.next⟩⟩

instance : Eventless Dry := ⟨⟨Eventless.events, Eventless.events, Eventless.events⟩⟩

instance : Closes Dry where
  close fd s x s' h := ⟨Closes.close fd s x s' h, Closes.close fd s x s' h, Closes.close fd s x s' h⟩

instance : Marks Dry where
  mark ha hb hp hcom := ⟨Marks.mark ha hb hp hcom, Marks.mark ha hb hp hcom, Marks.mark ha hb hp hcom⟩

instance (k : Store) [Changes Still k] [Changes Unpiped k] [Changes Muted k] : Changes Dry k :=
  ⟨fun h => ⟨Changes.change h, Changes.change h, Changes.change h⟩⟩

instance (p : Part) [Writes Still p a] [Writes Unpiped p a] [Writes Muted p a] : Writes Dry p a :=
  ⟨fun h => ⟨Writes.write h, Writes.write h, Writes.write h⟩⟩

instance (st : State) [Enters Still st a] [Enters Unpiped st a] [Enters Muted st a] : Enters Dry st a :=
  ⟨⟨Enters.enter, Enters.enter, Enters.enter⟩⟩

/-- Code that stays on the side of the connections. -/
theorem Apart.dry (h : Apart s s') (hw : WF s) : Dry s s' :=
  have haside := h.1 hw.owned
  have hside := haside.vmSide
  .of_eq (congrArg Daemon.vmList hside :) (congrArg Daemon.confs hside :) (congrArg Daemon.taps hside :)
    (congrArg Daemon.files hside :) haside.pipes (congrArg Daemon.launches hside :)

/-! ## Properties that steps carry on -/

/-- The property is carried on, and the lists stay consistent. -/
def Sustains (I : Daemon → Prop) (s s' : Daemon) : Prop := WF s → WF s' ∧ (I s → I s')

instance (I : Daemon → Prop) : IsPreorder Daemon (Sustains I) where
  refl _ := fun hw => ⟨hw, id⟩
  trans _ _ _ h h' := fun hw => ⟨(h' (h hw).1).1, (h' (h hw).1).2 ∘ (h hw).2⟩

/-- What `waitpid` returns for a child. -/
def Daemon.reapedStatus (env : Env) (s : Daemon) (pid : Pid) : Nat :=
  ((s.procs.find? (·.pid == pid)).bind (·.status)).getD (env.waitStatus s.tick)

theorem waitpid_reaped {pid : Pid} {x : Nat} {killed : Bool} (h : waitpid env pid killed s = .ok (x, s')) :
    x = s.reapedStatus env pid := by
  replace h := get_bind h
  obtain ⟨unset, s2, h2, h⟩ := of_bind h
  cases h2
  obtain ⟨_, _, -, h⟩ := of_bind h
  obtain ⟨_, s3, h3, h⟩ := of_bind h
  unfold Daemon.reapedStatus
  cases hp : s.procs.find? (·.pid == pid) with
  | none | some =>
    rw [hp] at h
    exact (pure_ok.mp h).1.symm

/-- `on_vm_exit` starts the VM again: its loader succeeded or its guest was rebooted. -/
def Daemon.restartsAfter (env : Env) (s : Daemon) (v : VmEntry) : Prop :=
  (v.state = .load ∧ loaded (s.reapedStatus env v.pid) = true) ∨
    (v.state = .run ∧ (s.vmConf v.addr).restarts (s.reapedStatus env v.pid) = true)

instance (s : Daemon) (v : VmEntry) : Decidable (s.restartsAfter env v) :=
  inferInstanceAs (Decidable ((v.state = .load ∧ _) ∨ (v.state = .run ∧ _)))

theorem finishLoad_wires (hv : s.vm? a = some v) (h : finishLoad a s = .ok (u, s')) :
    ∃ w, s'.vm? a = some w ∧ w.wires = { v.wires with infd := -1 } := by
  replace h := getVm_bind h
  obtain ⟨_, s2, h2, h⟩ := of_bind h
  obtain ⟨_, s3, h3, h⟩ := of_bind h
  obtain ⟨w, hw, hwires⟩ := (preserved h2 : Dry s s2).wires? hv
  have hw3 := modVm_lookup h3 (fun _ => rfl) hw
  obtain ⟨x, hx, hxw⟩ := (preserved h : Dry s3 s').wires? hw3
  refine ⟨x, hx, hxw.trans ?_⟩
  rw [← hwires]
  rfl

/-- What is to be shown of a property: it depends on no more than the holdings, and the functions that change them
    carry it on. A configuration is exchanged by the boot command and by the first pass of a reload, and a start
    follows. `Q` is what a start asks of the pipes of the VM; of a VM whose exit is answered with a start, `E` is
    known. -/
structure Kept (env : Env) (Q : Wires → Prop) (E : VmEntry → Prop) (I : Daemon → Prop) : Prop where
  nodup : ∀ {s : Daemon}, I s → (s.vmList.map (·.addr)).Nodup
  dry : ∀ {s s' : Daemon}, Dry s s' → I s → I s'
  idle : ∀ {s : Daemon} {a : Addr} {v : VmEntry}, I s → s.vm? a = some v → v.state = .terminate → Q v.wires
  loaded : ∀ {s : Daemon} {a : Addr} {v : VmEntry}, I s → s.vm? a = some v → v.state = .load → E v →
    Q { v.wires with infd := -1 }
  reboot : ∀ {s : Daemon} {a : Addr} {v : VmEntry}, I s → s.vm? a = some v → v.state = .run → E v → Q v.wires
  load : ∀ {s s' : Daemon} {ls : List LoadedConf} {l : List Addr}, WF s → allocConfs ls s = .ok (l, s') → I s → I s'
  create : ∀ {s : Daemon} {c : Addr} {m : VmMethod} {j : Nat}, WF s → s.methodOf c = some (m, j) → I s →
    I (s.withVm c m j)
  start : ∀ {s s' : Daemon} {a : Addr} {v : VmEntry} {r : Int}, s.vm? a = some v → Q v.wires →
    startVirtualMachine env a s = .ok (r, s') → I s → I s'
  switch : ∀ {s t s' : Daemon} {a c : Addr} {v : VmEntry} {r : Int}, s.vm? a = some v → Q v.wires →
    (s.conf? c).isSome → Dry (s.modVm a ({ · with conf := c })) t → startVirtualMachine env a t = .ok (r, s') →
    I s → I s'
  finish : ∀ {s s' : Daemon} {a : Addr} {v : VmEntry} {u : Unit}, s.vm? a = some v →
    finishLoad a s = .ok (u, s') → I s → I s'
  read : ∀ {s s' : Daemon} {a : Addr} {fd : Fd} {r : ReadResult} {u : Unit},
    onReadVmOutput a fd r s = .ok (u, s') → I s → I s'
  stop : ∀ {s s' : Daemon} {a : Addr} {u : Unit}, (s.vm? a).isSome →
    stopVirtualMachine env a s = .ok (u, s') → I s → I s'
  forget : ∀ {s s' : Daemon} {a : Addr} {v : VmEntry} {u : Unit}, s.vm? a = some v → v.state = .terminate →
    vmListRemove a s = .ok (u, s') → I s → I s'
  mark : ∀ {s : Daemon} {a c : Addr}, I s → I (s.modVm a ({ · with newConf := some c }))
  clear : ∀ {s s' : Daemon} {u : Unit}, clearNewConfs s = .ok (u, s') → I s → I s'

namespace Kept

variable {Q : Wires → Prop} {E : VmEntry → Prop} {I : Daemon → Prop}

theorem keeps {α : Type} (k : Kept env Q E I) {m : Bmd.Prog α} [h : Preserves Dry m] : Keeps (Carries I) m :=
  h.keeps.mono fun _ _ => k.dry

/-- Code that stays on the side of the connections. -/
theorem apart (k : Kept env Q E I) (h : Apart s s') (hw : WF s) : I s → I s' := k.dry (h.dry hw)

/-! ### Timers and exits -/

theorem onTimer (k : Kept env Q E I) (a : Addr) : Keeps (Carries I) (onTimer env a) := by
  refine .get_bind fun s u s' h => ?_
  cases hv : s.vm? a with
  | none =>
    simp only [hv] at h
    exact k.keeps _ _ _ h
  | some v =>
    simp only [hv] at h
    have hva := addr_of_vm? hv
    unfold onTimerVm at h
    rw [hva] at h
    cases hst : v.state with
    | terminate =>
      rw [hst] at h
      obtain ⟨r, s1, h1, h⟩ := of_bind h
      cases h
      exact fun hi => k.start hv (k.idle hi hv hst) h1 hi
    | run =>
      rw [hst] at h
      cases h
      exact id
    | load | stop | remove | restart => rw [hst] at h; exact k.keeps _ _ _ h

theorem onVmStopped (k : Kept env Q E I) (hv : (s.vm? a).isSome) (h : onVmStopped env a s = .ok (u, s')) :
    Carries I s s' := by
  obtain ⟨_, s1, h1, h⟩ := of_bind h
  replace h := get_bind h
  exact trans_of (Carries I) (k.stop hv h1) (k.keeps _ _ _ h)

/-- The state of a VM at rest is written once more. -/
theorem setState_idle (k : Kept env Q E I) (hst : (s.view a).state = some .terminate)
    (h : setState a .terminate s = .ok (u, s')) : Carries I s s' := by
  intro hi
  have hs' := of_modify h
  split at hs'
  · rw [hs']
    exact hi
  next v hv =>
  rw [view_state hv] at hst
  have hterm := Option.some.inj hst
  have hmap : (s.vmList.map fun w => if w.addr == a then { w with state := .terminate } else w) = s.vmList := by
    refine (List.map_congr_left fun w hw => ?_).trans (List.map_id _)
    split
    · next hwa =>
      have hwv := Keyed.find?_of_mem (k := VmEntry.addr) (k.nodup hi) hw
      rw [beq_iff_eq.mp hwa] at hwv
      have heq : v = w := Option.some.inj (hv.symm.trans hwv)
      subst heq
      show ({ v with state := .terminate } : VmEntry) = v
      rw [← hterm]
    · rfl
  rw [hs']
  exact k.dry (Dry.of_eq hmap rfl rfl rfl (fun _ => id) rfl) hi

theorem onVmRestart (k : Kept env Q E I) (hv : (s.vm? a).isSome) (h : onVmRestart env a s = .ok (u, s')) :
    Carries I s s' := by
  obtain ⟨_, s1, h1, h⟩ := of_bind h
  obtain ⟨_, s2, h2, h⟩ := of_bind h
  obtain ⟨conf, s3, h3, h⟩ := of_bind h
  obtain ⟨r, s4, h4, h⟩ := of_bind h
  cases h
  obtain ⟨-, e1⟩ := stopVirtualMachine_spec hv h1
  have k2 := k.setState_idle (by rw [e1]; rfl) h2
  exact trans_of (Carries I) (trans_of (Carries I) (k.stop hv h1) k2)
    (trans_of (Carries I) (k.keeps _ _ _ h3) (k.keeps _ _ _ h4))

theorem onVmRemoved (k : Kept env Q E I) (hv : (s.vm? a).isSome) (h : onVmRemoved env a s = .ok (u, s')) :
    Carries I s s' := by
  obtain ⟨_, s1, h1, h⟩ := of_bind h
  replace h := getVm_bind h
  obtain ⟨_, s3, h3, h⟩ := of_bind h
  obtain ⟨w1, e1⟩ := stopVirtualMachine_spec hv h1
  obtain ⟨v1, hv1⟩ := Option.isSome_iff_exists.mp (w1.isSome hv)
  have hst : v1.state = .terminate := by
    have hview : (s1.view a).state = some .terminate := by rw [e1]; rfl
    rw [view_state hv1] at hview
    exact Option.some.inj hview
  exact trans_of (Carries I) (k.stop hv h1)
    (trans_of (Carries I) (k.forget hv1 hst h3) (k.keeps _ _ _ h))

variable {conf : VmConf}

theorem onVmExitStatus (k : Kept env Q E I) {status : Nat} (hv : s.vm? v.addr = some v)
    (hE : (v.state = .load ∧ Bmd.loaded status = true) ∨ (v.state = .run ∧ conf.restarts status = true) → E v)
    (h : onVmExitStatus env v conf status s = .ok (u, s')) : Carries I s s' := by
  have hsome : (s.vm? v.addr).isSome := by rw [hv]; rfl
  unfold Bmd.onVmExitStatus at h
  cases hst : v.state with
  | load =>
    simp only [hst] at h
    split at h
    · next hload =>
      obtain ⟨_, s1, h1, h⟩ := of_bind h
      obtain ⟨r, s2, h2, h⟩ := of_bind h
      cases h
      obtain ⟨w, hw, hwires⟩ := finishLoad_wires hv h1
      intro hi
      have hQ := k.loaded hi hv hst (hE (.inl ⟨hst, hload⟩))
      exact k.start hw (hwires ▸ hQ) h2 (k.finish hv h1 hi)
    · exact k.stop hsome h
  | restart =>
    simp only [hst] at h
    exact k.onVmRestart hsome h
  | run =>
    simp only [hst] at h
    split at h
    · next hre =>
      obtain ⟨r, s1, h1, h⟩ := of_bind h
      cases h
      exact fun hi => k.start hv (k.reboot hi hv hst (hE (.inr ⟨hst, hre⟩))) h1 hi
    · exact k.onVmStopped hsome h
  | stop =>
    simp only [hst] at h
    exact k.onVmStopped hsome h
  | remove =>
    simp only [hst] at h
    exact k.onVmRemoved hsome h
  | terminate =>
    simp only [hst] at h
    cases h
    exact id

theorem onVmExit (k : Kept env Q E I) {ident : Pid} (hE : ∀ v, s.vm? a = some v → s.restartsAfter env v → E v)
    (h : onVmExit env a ident s = .ok (u, s')) : Carries I s s' := by
  replace h := get_bind h
  cases hv : s.vm? a with
  | none =>
    simp only [hv] at h
    exact k.keeps _ _ _ h
  | some v =>
    simp only [hv] at h
    obtain ⟨_, s1, h1, h⟩ := of_bind h
    obtain ⟨status, s2, h2, h⟩ := of_bind h
    replace h := getVmConf_bind h
    obtain ⟨_, s4, h4, h⟩ := of_bind h
    have hs1 := of_modify h1
    have hstatus := waitpid_reaped h2
    have hs2 := (waitpid_spec h2).1
    have hs4 := of_modify h4
    have hdry : Dry s s4 := by
      rw [hs4, hs2, hs1]
      exact Dry.of_eq rfl rfl rfl rfl (fun _ => id) rfl
    have hv4 : s4.vm? v.addr = some v := by
      rw [addr_of_vm? hv, hs4, hs2, hs1]
      exact hv
    refine trans_of (Carries I) (k.dry hdry) (k.onVmExitStatus hv4 (fun hre => hE v hv ?_) h)
    rw [hstatus, hs2, hs1] at hre
    exact hre

/-! ### Commands -/

theorem vmDownCommand (k : Kept env Q E I) {nv : NvList} {how : DownHow} {ucred : Xucred} :
    Keeps (Sustains I) (vmDownCommand env nv how ucred) := by
  intro s r s' h hw
  have hmoves : Moves env False s s' := vmDownCommand_moves _ _ _ h
  refine ⟨(hmoves hw).1.wf, ?_⟩
  obtain ⟨o, s1, h1, h⟩ := of_bind h
  obtain ⟨rfl, -⟩ := requestedVm_spec hw h1
  cases o with
  | none =>
    cases h
    exact id
  | some v =>
    obtain ⟨_, s2, h2, h⟩ := of_bind h
    refine trans_of (Carries I) (k.keeps _ _ _ h2) ?_
    split at h
    · replace h := get_bind h
      obtain ⟨_, s4, h4, h⟩ := of_bind h
      cases h
      exact k.keeps _ _ _ h4
    · cases h
      exact id

variable {load : Option (List LoadedConf)}

/-- **`search_and_replace_vm_conf`** leaves the VM its configuration or, last of all, exchanges it. -/
theorem searchAndReplaceVmConf (k : Kept env Q E I) {r : Int} (hw : WF s)
    (hv : s.vm? a = some v) (h : searchAndReplaceVmConf a load s = .ok (r, s')) :
    ∃ x w, Carries I s x ∧ x.vm? a = some w ∧ w.wires = v.wires ∧
      (Dry x s' ∨ (0 ≤ r ∧ ∃ c, (x.conf? c).isSome ∧ s' = x.modVm a ({ · with conf := c }))) := by
  replace h := get_bind h
  obtain ⟨o, s1, h1, h⟩ := of_bind h
  rcases loadConfigFile_spec h1 with ⟨rfl, -, rfl⟩ | ⟨ls, -, rfl, ha⟩
  · cases h
    exact ⟨_, v, id, hv, rfl, .inl (refl_of Dry _)⟩
  have hv1 : s1.vm? a = some v := by
    obtain ⟨-, rfl⟩ := allocConfs_spec ls ha
    exact hv
  obtain ⟨o2, s2, h2, h⟩ := of_bind h
  have dry2 : Dry s1 s2 := preserved h2
  obtain ⟨v2, hv2, hwires2⟩ := dry2.wires? hv1
  have carry2 : Carries I s s2 := trans_of (Carries I) (k.load hw ha) (k.dry dry2)
  cases o2 with
  | none =>
    cases h
    exact ⟨s', v2, carry2, hv2, hwires2, .inl (refl_of Dry s')⟩
  | some c =>
    obtain ⟨_, s3, h3, h⟩ := of_bind h
    cases h
    replace h3 := get_bind h3
    split at h3
    · obtain ⟨_, s5, h5, h3⟩ := of_bind h3
      obtain ⟨_, s6, h6, h3⟩ := of_bind h3
      obtain ⟨_, s7, h7, h3⟩ := of_bind h3
      have dry5 : Dry s2 s5 := preserved h5
      have dry6 : Dry s5 s6 := by
        rw [of_modify h6]
        exact Dry.of_eq rfl rfl rfl rfl (fun _ => id) rfl
      have dry7 : Dry s6 s7 := preserved h7
      have dry := trans_of Dry dry5 (trans_of Dry dry6 dry7)
      have hc : (s7.conf? c).isSome := by
        have hc1 : (s1.conf? c).isSome := by
          rcases (searchConf_spec _ h2).2 with hr | ⟨x, hx, hr⟩
          · cases hr
          · cases hr
            exact allocConfs_isSome ha hx
        rw [← methodOf_isSome] at hc1 ⊢
        rw [dry.still.methodOf, dry2.still.methodOf]
        exact hc1
      obtain ⟨v7, hv7, hwires7⟩ := dry.wires? hv2
      exact ⟨s7, v7, trans_of (Carries I) carry2 (k.dry dry), hv7, hwires7.trans hwires2,
        .inr ⟨by decide, c, hc, of_modify h3⟩⟩
    · exact ⟨s2, v2, carry2, hv2, hwires2, .inl (preserved h3)⟩

theorem bootVm (k : Kept env Q E I) {install : Bool} {r : NvList} (hw : WF s)
    (hv : s.vm? v.addr = some v) (h : bootVm env v install load s = .ok (r, s')) : Carries I s s' := by
  obtain ⟨_, s1, h1, h⟩ := of_bind h
  have dry1 : Dry s s1 := preserved h1
  obtain ⟨v1, hv1, hwires1⟩ := dry1.wires? hv
  have hw1 : WF s1 := by
    rw [of_modify h1]
    exact (note_tidy_vm hw hv rfl).wf
  split at h
  · cases h
    exact k.dry dry1
  next hst =>
  intro hi
  have hQ : Q v.wires := k.idle hi hv (not_not.mp hst)
  obtain ⟨r2, s2, h2, h⟩ := of_bind h
  obtain ⟨x, vx, carry, hx, hwiresx, hcase⟩ := k.searchAndReplaceVmConf hw1 hv1 h2
  have hQx : Q vx.wires := by
    rw [hwiresx, hwires1]
    exact hQ
  have hix : I x := carry (k.dry dry1 hi)
  split at h
  · next hneg =>
    cases h
    rcases hcase with dry | ⟨hpos, -⟩
    · exact k.dry dry hix
    · omega
  obtain ⟨_, s3, h3, h⟩ := of_bind h
  have dry3 : Dry s2 s3 := preserved h3
  obtain ⟨r4, s4, h4, h⟩ := of_bind h
  have hi4 : I s4 := by
    rcases hcase with dry | ⟨-, c, hc, rfl⟩
    · have dry' := trans_of Dry dry dry3
      obtain ⟨v3, hv3, hwires3⟩ := dry'.wires? hx
      exact k.start hv3 (hwires3 ▸ hQx) h4 (k.dry dry' hix)
    · exact k.switch hx hQx hc dry3 h4 hix
  split at h
  · cases h
    exact hi4
  · exact k.keeps _ _ _ h hi4

theorem boot0Command (k : Kept env Q E I) {nv : NvList} {install : Bool} {ucred : Xucred}
    : Keeps (Sustains I) (boot0Command env nv install ucred load) := by
  intro s r s' h hw
  obtain ⟨o, s1, h1, h⟩ := of_bind h
  obtain ⟨rfl, hv⟩ := requestedVm_spec hw h1
  cases o with
  | none =>
    cases h
    exact refl_of (Sustains I) _ hw
  | some v =>
    have hmoves : Moves env False s1 s' := bootVm_moves (hv v rfl) h
    exact ⟨(hmoves hw).1.wf, k.bootVm hw (hv v rfl) h⟩

theorem serves (k : Kept env Q E I) : Serves env (Sustains I) :=
  ⟨fun ha hw => ⟨(ha.calm hw).1.wf, k.apart ha hw⟩, k.vmDownCommand, k.boot0Command⟩

/-! ### Steps -/

theorem callback (k : Kept env Q E I) (hw : WF s) (hcb : e.cb ≠ .onSighup)
    (hE : ∀ a v, e.cb = .onVmExit → e.data = .vm a → s.vm? a = some v → s.restartsAfter env v → E v)
    (h : callback env e io s = .ok (u, s')) : Carries I s s' := by
  have hnone : ∀ {t : Daemon} {u : Unit}, (pure () : Bmd.Prog Unit) s = .ok (u, t) → Carries I s t := by
    intro t u ht
    cases ht
    exact id
  unfold Bmd.callback at h
  cases hc : e.cb <;> cases hd : e.data <;> simp only [hc, hd] at h
  case onTimer.vm a => exact k.onTimer _ _ _ _ h
  case onVmExit.vm a => exact k.onVmExit (fun v => hE a v hc hd) h
  case onReadVmOutput.vm a => exact k.read h
  case onRecvSockBuf.sock a => exact (k.serves.onRecvSockBuf _ io _ _ _ h hw).2
  case onSendSockBuf.sock a => exact k.apart (onSendSockBuf_apart _ io _ _ _ h) hw
  case onAcceptCmdSock.null => exact k.apart (onAcceptCmdSock_apart io _ _ _ h) hw
  case onAcceptCmdSock.vm a => exact k.apart (onAcceptCmdSock_apart io _ _ _ h) hw
  case onAcceptCmdSock.sock a => exact k.apart (onAcceptCmdSock_apart io _ _ _ h) hw
  case onSigterm.null => exact k.apart (onSigterm_apart _ _ _ h) hw
  case onSigterm.vm a => exact k.apart (onSigterm_apart _ _ _ h) hw
  case onSigterm.sock a => exact k.apart (onSigterm_apart _ _ _ h) hw
  case onSighup.null => exact (hcb hc).elim
  case onSighup.vm a => exact (hcb hc).elim
  case onSighup.sock a => exact (hcb hc).elim
  all_goals exact hnone h

theorem delivered_still (s : Daemon) (e : Event) : Dry s (s.delivered e) := Dry.of_eq rfl rfl rfl rfl (fun _ => id) rfl

/-- The dispatch of an event other than `SIGHUP`, and what a reload is run on. -/
theorem dispatch (k : Kept env Q E I) (hw : WF s)
    (hreload : ∀ t r t', e.cb = .onSighup → t.vmList = s.vmList → t.confs = s.confs → WF t →
      reloadVirtualMachines env io.load t = .ok (r, t') → I t → I t')
    (hE : ∀ a v, e.cb = .onVmExit → e.data = .vm a → s.vm? a = some v → s.restartsAfter env v → E v)
    (h : dispatch env e io s = .ok (u, s')) : Carries I s s' := by
  obtain ⟨_, s1, h1, h⟩ := of_bind h
  rw [deliver_ok h1] at h
  obtain ⟨_, t, h2, h⟩ := of_bind h
  refine trans_of (Carries I) (k.dry (delivered_still s e)) (trans_of (Carries I) ?_ (k.keeps _ _ _ h))
  by_cases hcb : e.cb = .onSighup
  · simp only [Bmd.callback, hcb] at h2
    obtain ⟨r, t1, h3, h2⟩ := of_bind h2
    cases h2
    exact hreload _ r t hcb rfl rfl (delivered_wf hw) h3
  · exact k.callback (delivered_wf hw) hcb hE h2

/-- **Every step.** What a reload does is left to show. -/
theorem step (k : Kept env Q E I) (hw : WF s)
    (hreload : ∀ x io e t r t', i = .event x io → s.event? x = some e → e.cb = .onSighup → t.vmList = s.vmList →
      t.confs = s.confs → WF t → reloadVirtualMachines env io.load t = .ok (r, t') → I t → I t')
    (hE : ∀ e ∈ s.arrival i, ∀ a v, e.cb = .onVmExit → e.data = .vm a → s.vm? a = some v → s.restartsAfter env v → E v)
    (h : step env s i = some s') : Carries I s s' := by
  cases step_taken h with
  | procExit | keventError => exact k.dry (Dry.of_eq rfl rfl rfl rfl (fun _ => id) rfl)
  | @event x io e u _ hx hwait hdel h =>
    -- counting the exit down changes the phase only
    have hphase : Dry s { s with phase := countDown e s.phase } := Dry.of_eq rfl rfl rfl rfl (fun _ => id) rfl
    refine trans_of (Carries I) (k.dry hphase) (k.dispatch ?_ (fun t r t' => ?_) (hE e hx) h)
    · exact (setPhase_confSide s (countDown e s.phase)).wf hw
    · exact hreload x io e t r t' rfl hx
  | timeout h =>
    have haside := closeTimeoutSockBuf_aside _ _ _ _ _ h hw.owned
    have hside := haside.vmSide
    exact k.dry (Dry.of_eq (congrArg Daemon.vmList hside :) (congrArg Daemon.confs hside :)
      (congrArg Daemon.taps hside :) (congrArg Daemon.files hside :) haside.pipes (congrArg Daemon.launches hside :))
  | pluginEvent h => exact k.apart (registerPluginEvent_apart _ _ _ _ h) hw
  | stopVirtualMachines h => exact k.keeps _ _ _ h

/-! ### Creating -/

theorem createVmEntry (k : Kept env Q E I) {o : Option Addr} (hw : WF s) (h : createVmEntry env c s = .ok (o, s')) :
    Carries I s s' ∧ ∀ a ∈ o, ∃ v, s'.vm? a = some v ∧ v.state = .terminate := by
  obtain ⟨ok, s1, h1, h⟩ := of_bind h
  cases h1
  split at h
  · cases h
    exact ⟨k.dry (Dry.of_eq rfl rfl rfl rfl (fun _ => id) rfl), nofun⟩
  · obtain ⟨a, s2, h2, h⟩ := of_bind h
    cases h2
    replace h := get_bind h
    cases hm : s.methodOf c with
    | none =>
      have hm' : Daemon.methodOf { s with tick := s.tick + 1, next := s.next + 1 } c = none := hm
      simp only [hm'] at h
      cases h
      exact ⟨k.dry (Dry.of_eq rfl rfl rfl rfl (fun _ => id) rfl), nofun⟩
    | some p =>
      have hm' : Daemon.methodOf { s with tick := s.tick + 1, next := s.next + 1 } c = some p := hm
      simp only [hm'] at h
      cases h
      refine ⟨k.create hw hm, fun a ha => ?_⟩
      cases ha
      exact ⟨_, vm?_withVm_self, rfl⟩

theorem bootNewVm (k : Kept env Q E I) (hv : s.vm? a = some v) (hst : v.state = .terminate)
    (h : bootNewVm env a conf s = .ok (u, s')) : Carries I s s' := by
  unfold Bmd.bootNewVm at h
  split at h
  · cases h
    exact id
  split at h
  · obtain ⟨r, s1, h1, h⟩ := of_bind h
    cases h
    exact k.keeps _ _ _ h1
  · obtain ⟨r, s1, h1, h⟩ := of_bind h
    cases h
    exact fun hi => k.start hv (k.idle hi hv hst) h1 hi

theorem startVms (k : Kept env Q E I) {l : List Addr} {r : Int} (hw : WF s) (hcmd : ∀ a, (s.view a).Commanded)
    (hl : ∀ c ∈ l, (s.conf? c).isSome) (h : startVms env l s = .ok (r, s')) : Carries I s s' := by
  induction l generalizing s with
  | nil =>
    cases h
    exact id
  | cons c rest ih =>
    obtain ⟨o, s1, h1, h⟩ := of_bind h
    have carry1 := (k.createVmEntry hw h1).1
    rcases createVmEntry_spec h1 with ⟨rfl, -⟩ | ⟨rfl, m, j, rfl⟩
    · cases h
      exact carry1
    have c1 : Creates env Ordered c s (s.withVm c m j) := withVm_creates (hl c List.mem_cons_self)
    obtain ⟨t1, cmd1, -⟩ := c1.obeys hw hcmd
    replace h := getVmConf_bind h
    obtain ⟨_, s3, h3, h⟩ := of_bind h
    have hst : ((s.withVm c m j).view s.next).state = some .terminate := view_state vm?_withVm_self
    have w3 := bootNewVm_works t1.wf (cmd1 _) hst h3
    obtain ⟨t3, cmd3, -⟩ := w3.toActsOn.obeys (isSome_of_view hst) t1.wf cmd1
    have carry3 := k.bootNewVm vm?_withVm_self rfl h3
    refine trans_of (Carries I) carry1 (trans_of (Carries I) carry3 (ih t3.wf cmd3 (fun x hx => ?_) h))
    exact t3.confs x (t1.confs x (hl x (List.mem_cons_of_mem _ hx)))

/-- **The start of the daemon.** -/
theorem startDaemon (k : Kept env Q E I) {load : List LoadedConf} {off : Int} (hi : I (Daemon.empty off))
    (h : boot env load off = some s) : I s := by
  obtain ⟨l, s1, s2, fd, s3, s4, u, h1, hs2, -, h3, hs4, h, t4, cmd4, -⟩ := boot_opened h
  have hi4 : I s4 := by
    have hi1 := k.load (empty_wf off) h1 hi
    have hi2 : I s2 := k.dry (by rw [hs2]; exact Dry.of_eq rfl rfl rfl rfl (fun _ => id) rfl) hi1
    have hi3 : I s3 := k.keeps _ _ _ h3 hi2
    exact k.dry (by rw [hs4]; exact Dry.of_eq rfl rfl rfl rfl (fun _ => id) rfl) hi3
  have hphase : ∀ {x y : Daemon} {u : Unit}, (modify fun s => { s with phase := .left } : Bmd.Prog Unit) x = .ok (u, y) →
      I x → I y := by
    intro x y u hxy hx
    have still : Dry x y := by
      rw [of_modify hxy]
      exact Dry.of_eq rfl rfl rfl rfl (fun _ => id) rfl
    exact k.dry still hx
  obtain ⟨r, s5, h5, h⟩ := of_bind h
  have hi5 : I s5 := by
    obtain ⟨rc, s6, h6, h5⟩ := of_bind h5
    have hi6 : I s6 := k.dry ((registerEvents_behaves (R := Dry) (E := fun _ => True) (by simp)).keeps _ _ _ h6) hi4
    have k6 : Apart s4 s6 := registerSignals_apart (by simp) _ _ _ h6
    obtain ⟨t6, cmd6, -⟩ := (k6.calm.obeys : Obeys env Ordered s4 s6) t4.wf cmd4
    split at h5
    · cases h5
      exact hi6
    · replace h5 := get_bind h5
      exact k.startVms t6.wf cmd6 (fun c hc => t6.wf.listed c hc) h5 hi6
  split at h
  · exact hphase h hi5
  replace h := get_bind h
  obtain ⟨rc, s7, h7, h⟩ := of_bind h
  have hi7 : I s7 := k.keeps _ _ _ h7 hi5
  split at h
  · exact hphase h hi7
  · cases h
    exact hi7

/-! ### Reloading -/

theorem changeBoot (k : Kept env Q E I) {w : VmEntry} (hv : s.vm? v.addr = some w)
    (hQ : v.state = .terminate → Q w.wires) (hc : (s.conf? c).isSome) (h : changeBoot env v c conf s = .ok (u, s')) :
    Carries I s s' := by
  have hstart : ∀ {u : Unit}, v.state = .terminate → (do
      Bmd.modVm v.addr ({ · with conf := c })
      let _ ← startVirtualMachine env v.addr : Bmd.Prog Unit) s = .ok (u, s') → Carries I s s' := by
    intro u hst h
    obtain ⟨_, s1, h1, h⟩ := of_bind h
    obtain ⟨r, s2, h2, h⟩ := of_bind h
    cases h
    rw [of_modify h1] at h2
    exact k.switch hv (hQ hst) hc (refl_of Dry _) h2
  unfold Bmd.changeBoot at h
  cases hb : conf.boot with
  | no =>
    simp only [hb] at h
    split at h
    · exact k.keeps _ _ _ h
    · split at h
      · exact k.keeps _ _ _ h
      · cases h
        exact id
  | oneshot =>
    simp only [hb] at h
    cases h
    exact id
  | always | yes =>
    simp only [hb] at h
    split at h
    · next hst => exact hstart hst h
    · split at h
      · exact k.keeps _ _ _ h
      · cases h
        exact id

theorem reloadOldVm (k : Kept env Q E I) (hv : s.vm? v.addr = some v) (hc : (s.conf? c).isSome)
    (h : reloadOldVm env v c conf s = .ok (u, s')) : Carries I s s' := by
  replace h := get_bind h
  obtain ⟨_, s1, h1, h⟩ := of_bind h
  have dry1 : Dry s s1 := preserved h1
  obtain ⟨v1, hv1, hwires1⟩ := dry1.wires? hv
  obtain ⟨_, s2, h2, h⟩ := of_bind h
  have hs2 := of_modify h2
  have hv2 := modVm_lookup h2 (fun _ => rfl) hv1
  have hc2 : (s2.conf? c).isSome := by
    rw [← methodOf_isSome] at hc ⊢
    have hm : s2.methodOf = s1.methodOf := by rw [hs2]; rfl
    rw [hm, dry1.still.methodOf]
    exact hc
  intro hi
  have hi2 : I s2 := by
    rw [hs2]
    exact k.mark (k.dry dry1 hi)
  split at h
  · exact k.keeps _ _ _ h hi2
  split at h
  · cases h
    exact hi2
  · refine k.changeBoot hv2 (fun hst => ?_) hc2 h hi2
    have hQ := k.idle hi hv hst
    rw [← hwires1] at hQ
    exact hQ

theorem reloadConf (k : Kept env Q E I) {r : Bool} (hw : WF s) (hc : (s.conf? c).isSome)
    (h : reloadConf env c s = .ok (r, s')) : Carries I s s' := by
  replace h := get_bind h
  cases hl : s.lookupVmByName (s.confOf c).name with
  | none =>
    simp only [hl] at h
    obtain ⟨o, s1, h1, h⟩ := of_bind h
    obtain ⟨carry1, hnew⟩ := k.createVmEntry hw h1
    refine trans_of (Carries I) carry1 ?_
    cases o with
    | none =>
      cases h
      exact id
    | some a =>
      obtain ⟨_, s2, h2, h⟩ := of_bind h
      obtain ⟨_, s3, h3, h⟩ := of_bind h
      cases h
      obtain ⟨v, hv, hst⟩ := hnew a rfl
      have carry2 : Carries I s1 s2 := by
        rw [of_modify h2]
        exact k.mark
      exact trans_of (Carries I) carry2 (k.bootNewVm (modVm_lookup h2 (fun _ => rfl) hv) hst h3)
  | some v =>
    simp only [hl] at h
    obtain ⟨_, s1, h1, h⟩ := of_bind h
    cases h
    exact k.reloadOldVm (lookupVmByName_vm? hw hl).1 hc h1

/-- **The first pass.** -/
theorem reloadConfs (k : Kept env Q E I) {l : List Addr} {r : Bool} (hw : WF s) (hcmd : ∀ a, (s.view a).Recalled)
    (hl : ∀ c ∈ l, (s.conf? c).isSome) (h : reloadConfs env l s = .ok (r, s')) : Carries I s s' := by
  induction l generalizing s with
  | nil =>
    cases h
    exact id
  | cons c rest ih =>
    obtain ⟨ok, s1, h1, h⟩ := of_bind h
    have carry1 := k.reloadConf hw (hl c List.mem_cons_self) h1
    obtain ⟨t1, cmd1, -⟩ := (reloadConf_spec hw hcmd (hl c List.mem_cons_self) h1).obeys hw hcmd
    refine trans_of (Carries I) carry1 ?_
    cases ok with
    | false =>
      cases h
      exact id
    | true => exact ih t1.wf cmd1 (fun x hx => t1.confs x (hl x (List.mem_cons_of_mem _ hx))) h

theorem dropVm (k : Kept env Q E I) (hv : s.vm? v.addr = some v) (h : dropVm env v conf s = .ok (u, s')) :
    Carries I s s' := by
  unfold Bmd.dropVm at h
  cases hst : v.state with
  | terminate =>
    rw [hst] at h
    obtain ⟨_, s1, h1, h⟩ := of_bind h
    obtain ⟨_, s2, h2, h⟩ := of_bind h
    exact trans_of (Carries I) (k.forget hv hst h1)
      (trans_of (Carries I) (k.keeps _ _ _ h2) (k.keeps _ _ _ h))
  | load | run | stop | remove | restart => rw [hst] at h; exact k.keeps _ _ _ h

/-- **The second pass**, for a property that does not mind which configuration a VM has. -/
theorem settleVms (k : Kept env Q E I)
    (hadopt : ∀ {s : Daemon} {a c : Addr}, I s → I (s.modVm a ({ · with conf := c, newConf := none })))
    {l : List Addr} (h : settleVms env l s = .ok (u, s')) : Carries I s s' := by
  induction l generalizing s with
  | nil =>
    cases h
    exact id
  | cons a rest ih =>
    obtain ⟨_, s1, h1, h⟩ := of_bind h
    refine trans_of (Carries I) ?_ (ih h)
    replace h1 := get_bind h1
    cases hv : s.vm? a with
    | none =>
      simp only [hv] at h1
      cases h1
      exact id
    | some v =>
      simp only [hv] at h1
      cases hn : v.newConf with
      | none =>
        simp only [hn] at h1
        exact k.dropVm (by rw [addr_of_vm? hv]; exact hv) h1
      | some c =>
        simp only [hn] at h1
        rw [of_modify h1]
        exact hadopt

/-- **A reload**, for such a property. -/
theorem reloadVirtualMachines (k : Kept env Q E I)
    (hadopt : ∀ {s : Daemon} {a c : Addr}, I s → I (s.modVm a ({ · with conf := c, newConf := none })))
    {load : Option (List LoadedConf)} {r : Int} (hw : WF s) (hr : reloadVirtualMachines env load s = .ok (r, s')) :
    Carries I s s' := by
  obtain ⟨o, s1, h1, h⟩ := of_bind hr
  rcases loadConfigFile_spec h1 with ⟨rfl, -, rfl⟩ | ⟨ls, -, rfl, ha⟩
  · cases h
    exact id
  refine trans_of (Carries I) (k.load hw ha) ?_
  have hw1 := (allocConfs_confSide ls _ _ _ ha).wf hw
  obtain ⟨s2, ok, s3, hb, h3, h⟩ := reloadList_begins hw1 h
  have hnote : Dry s1 (s1.note .reload) := Dry.of_eq rfl rfl rfl rfl (fun _ => id) rfl
  have carry2 : Carries I s1 s2 := trans_of (Carries I) (k.dry hnote) (k.clear hb.run)
  have hconf2 : ∀ c ∈ List.range' s.next ls.length, (s2.conf? c).isSome := fun c hc => by
    rw [of_modify hb.run]
    exact allocConfs_isSome ha hc
  refine trans_of (Carries I) carry2 (trans_of (Carries I) (k.reloadConfs hb.wf hb.cmd hconf2 h3) ?_)
  cases ok with
  | false =>
    rw [if_neg (by decide)] at h
    rw [h]
    exact id
  | true =>
    rw [if_pos rfl] at h
    replace h := get_bind h
    obtain ⟨_, s5, h5, h⟩ := of_bind h
    replace h := get_bind h
    obtain ⟨_, s7, h7, h⟩ := of_bind h
    have still : Dry s7 s' := by
      rw [of_modify h]
      exact Dry.of_eq rfl rfl rfl rfl (fun _ => id) rfl
    exact trans_of (Carries I) (k.settleVms hadopt h5)
      (trans_of (Carries I) (k.keeps _ _ _ h7) (k.dry still))

end Kept

end Bmd
