import Bmd.Correctness.Confinement

/-!
# `Correctness.FailedStart` — what a failed start leaves behind

Whether a VM is cleanly stopped after `start_virtual_machine` has returned -1 depends on the call that failed. The calls
before `VM_START` leave the VM as it is, apart from the tap interfaces. When `VM_START` or `wait_for_vm` fails, all that
the VM holds is released, unless it is the `fork` of `grub_load`, which loses the input pipe. When `wait_for_vm_output`
fails, the exit event registered just before stays; when the timer cannot be set, the loader runs on.
-/

namespace Bmd

open Lib Lib.Prog

variable {env : Env} {s s' t : Daemon} {a : Addr} {v w : VmEntry} {r : Int} {cur : Option Addr} {u : Unit} {β : Type}

/-- The VM at `a` has no child, and `event_list` no process or output event for it, the event `cur` aside. -/
structure Daemon.Quiet (cur : Option Addr) (a : Addr) (s : Daemon) : Prop where
  children : ∀ p ∈ s.procs, p.owner ≠ a
  events : ∀ e ∈ s.eventList, some e.addr ≠ cur → e.data = .vm a → e.filter ≠ .proc ∧ e.filter ≠ .read

/-- The VM at `a` is cleanly stopped. The event `cur` is being dispatched: it is released afterwards. -/
structure Daemon.Stopped (cur : Option Addr) (a : Addr) (s : Daemon) : Prop extends s.Quiet cur a where
  state : (s.vmOf a).state = .terminate
  taps : (s.vmOf a).taps = []
  pipes : ∀ p ∈ s.pipes, p.1 ≠ a
  mapfile : (s.vmOf a).mapfile = none

/-! ## The failing call -/

/-- The calls of `start_virtual_machine` that can fail; `grubFork` is a `VM_START` that fails in the `fork` of
    `grub_load`, when the input pipe has been made. -/
inductive StartCall where
  | setVmMethod | assignComport | setUpTaps | vmStart | grubFork | waitForVm | waitForVmOutput | setTimer
  deriving DecidableEq

/-- `fork` fails in `grub_load` when the input pipe has been made. -/
def Daemon.losesInput (env : Env) (a : Addr) (s : Daemon) : Bool :=
  match inputAhead env a s with
  | .ok (true, t) => (env.fork t.tick (t.procs.map (·.pid))).isNone
  | _ => false

/-- `start_virtual_machine` up to the call that fails. -/
def failingCall (env : Env) (a : Addr) : Bmd.Prog (Option StartCall) := do
  if (← setVmMethod a) < 0 then
    return some .setVmMethod
  if (← assignComport env a) < 0 then
    return some .assignComport
  if (← setUpTaps env a) < 0 then
    return some .setUpTaps
  let loses := (← get).losesInput env a
  if (← startBhyve env a) < 0 then
    return some (if loses then .grubFork else .vmStart)
  let v ← getVm a
  if (← waitForVm env a v.pid) < 0 then
    return some .waitForVm
  if (← waitForVmOutput env v) < 0 then
    return some .waitForVmOutput
  let conf ← getVmConf a
  if (← setLoaderTimer env a conf) < 0 then
    return some .setTimer
  return none

/-- The call of a start that fails. -/
def Daemon.failing (env : Env) (a : Addr) (s : Daemon) : Option StartCall :=
  match failingCall env a s with
  | .ok (c, _) => c
  | .error _ => none

/-- A VM whose entry was `v` is stopped when the call fails. -/
def StartCall.Clean (v : VmEntry) : StartCall → Prop
  | .setVmMethod | .assignComport => v.state = .terminate ∧ v.taps = [] ∧ v.mapfile = none
  | .setUpTaps => v.mapfile = none
  | .vmStart | .waitForVm => True
  | .grubFork | .waitForVmOutput | .setTimer => False

theorem losesInput_iff : s.losesInput env a = false ↔ Meets env.Forks (inputAhead env a) s := by
  unfold Daemon.losesInput Meets Env.Forks
  split
  · next t ht =>
    simp only [ht, Except.ok.injEq, Prod.mk.injEq, true_and, forall_eq', Option.isNone_eq_false_iff]
  · next hne =>
    simp only [true_iff]
    exact fun t ht => (hne t ht).elim

/-! ## Children and events -/

/-- The VM at `a` has the same children, and the events are the same. -/
structure Hushed (a : Addr) (s s' : Daemon) : Prop where
  children : s'.procs.filter (·.owner == a) = s.procs.filter (·.owner == a)
  events : s'.eventList.map Event.key = s.eventList.map Event.key

theorem Hushed.quiet (h : Hushed a s s') (hq : s.Quiet cur a) : s'.Quiet cur a := by
  constructor
  · intro p hp ho
    have hmem : p ∈ s.procs.filter (·.owner == a) := by
      rw [← h.children]
      exact List.mem_filter.mpr ⟨hp, beq_iff_eq.mpr ho⟩
    exact hq.children p (List.mem_filter.mp hmem).1 ho
  · intro e' he'
    have hmem : e'.key ∈ s.eventList.map Event.key := by
      rw [← h.events]
      exact List.mem_map_of_mem he'
    obtain ⟨e, he, hk⟩ := List.mem_map.mp hmem
    obtain ⟨haddr, -, hfilter, hdata, -⟩ : e.addr = e'.addr ∧ e.ident = e'.ident ∧ e.filter = e'.filter ∧
        e.data = e'.data ∧ e.cb = e'.cb := by simpa [Event.key] using hk
    rw [← haddr, ← hfilter, ← hdata]
    exact hq.events e he

theorem Hushed.quiet_iff (h : Hushed a s s') : s'.Quiet cur a ↔ s.Quiet cur a :=
  ⟨Hushed.quiet ⟨h.children.symm, h.events.symm⟩, h.quiet⟩

theorem Silent.hushed (q : Silent a s s') : Hushed a s s' := by
  refine ⟨by rw [q.procs], ?_⟩
  have hblank : s'.eventList.map Event.blank = s.eventList.map Event.blank := (congrArg Daemon.eventList q.1 :)
  have hkey : Event.key ∘ Event.blank = Event.key := by
    funext e
    simp [Event.key]
  have hmap := congrArg (List.map Event.key) hblank
  rwa [List.map_map, List.map_map, hkey] at hmap

/-- No event is registered or dropped. -/
def SameEvents (s s' : Daemon) : Prop := s'.eventList.map Event.key = s.eventList.map Event.key

instance : IsPreorder Daemon SameEvents where
  refl _ := rfl
  trans _ _ _ h h' := Eq.trans h' h

instance : Counts SameEvents := ⟨rfl, rfl⟩

instance (k : Store) : Changes SameEvents k :=
  .of_proj (f := fun s => s.eventList.map Event.key) id fun s => by rw [sans_eventList]

instance : Closes SameEvents where
  close fd := .modify fun s => by
    show List.map _ (List.map _ _) = _
    rw [List.map_map]
    exact List.map_congr_left fun e _ => by simp only [Function.comp_apply]; split <;> rfl

/-! ## What the entry holds -/

/-- Of every entry the part that `f` reads is as it was. -/
def Untouched (f : VmEntry → β) (s s' : Daemon) : Prop := ∀ b, (s'.vm? b).map f = (s.vm? b).map f

instance (f : VmEntry → β) : IsPreorder Daemon (Untouched f) where
  refl _ _ := rfl
  trans _ _ _ h h' b := (h' b).trans (h b)

instance (f : VmEntry → β) : Counts (Untouched f) := ⟨fun _ => rfl, fun _ => rfl⟩

theorem Untouched.writes {f : VmEntry → β} {p : Part} (hp : ∀ v, f (v.sans p) = f v) : Writes (Untouched f) p a := by
  refine .of_proj (f := fun v => (v.addr, f v)) (fun {s g} hg _ b => ?_) fun v => ?_
  · have haddr : ∀ v, (g v).addr = v.addr := fun v => (Prod.mk.inj (hg v)).1
    rw [vm?_modVm_any haddr, Option.map_map]
    refine congrArg (Option.map · (s.vm? b)) (funext fun v => ?_)
    simp only [Function.comp_apply]
    split
    · exact (Prod.mk.inj (hg v)).2
    · rfl
  · exact Prod.ext (by cases p <;> rfl) (hp v)

theorem Untouched.vmOf {f : VmEntry → β} (h : Untouched f s s') (hv : s.vm? a = some v) (hw : s'.vm? a = some w) :
    f w = f v := by
  have := h a
  rw [hv, hw] at this
  exact Option.some.inj this

instance Untouched.changes {f : VmEntry → β} {k : Store} [h : Holds (k matches .records | .fds | .pipes | .taps | .files)] :
    Changes (Untouched f) k :=
  .of_proj (f := Daemon.vmList) (fun h b => by rw [Daemon.vm?, h]; rfl)
    (by cases k <;> first | exact fun _ => rfl | cases h.holds)

theorem setUpTaps_mapfile (h : setUpTaps env a s = .ok (r, s')) : Untouched VmEntry.mapfile s s' := by
  have htaps : Writes (Untouched VmEntry.mapfile) .taps a := Untouched.writes fun _ => rfl
  exact preserved h

theorem prepared_goods {x : Int} (h : setVmMethod a s = .ok (r, t)) (h' : assignComport env a t = .ok (x, s')) :
    Untouched (fun v => (v.taps, v.mapfile)) s t ∧ Untouched (fun v => (v.taps, v.mapfile)) s s' := by
  have hmethod : Writes (Untouched fun v => (v.taps, v.mapfile)) .method a := Untouched.writes fun _ => rfl
  have hconsole : Writes (Untouched fun v => (v.taps, v.mapfile)) .console a := Untouched.writes fun _ => rfl
  have h1 : Untouched (fun v => (v.taps, v.mapfile)) s t := preserved h
  exact ⟨h1, trans_of (Untouched _) h1 (preserved h')⟩

/-! ## Releasing -/

/-- The entry outlives a program that leaves the life of the VM alone. -/
theorem isSome_run {α : Type} {m : Bmd.Prog α} [Preserves (Silent a) m] {x : α} (hv : (s.vm? a).isSome)
    (h : m s = .ok (x, s')) : (s'.vm? a).isSome := (preserved (R := Silent a) h).touch.isSome hv

section Releasing

variable (hsock : ∀ n, env.removeSocket n = true)

include hsock

theorem removeTaps_tapless (hv : (s.vm? a).isSome) (h : removeTaps env a s = .ok (r, s')) : (s'.vmOf a).taps = [] := by
  obtain ⟨ok, s1, h1, h⟩ := of_bind h
  have hok : ok = true := by
    cases h1
    exact hsock _
  rw [hok, if_neg (by decide)] at h
  replace h := getVm_bind h
  obtain ⟨_, s3, h3, h⟩ := of_bind h
  obtain ⟨_, s4, h4, h⟩ := of_bind h
  cases h
  obtain ⟨w, hw⟩ := Option.isSome_iff_exists.mp (isSome_run (isSome_run hv h1) h3)
  rw [vmOf_of_vm? (modVm_lookup h4 (fun _ => rfl) hw)]

theorem createTaps_tapless {l : List NetConf} : ∀ {done : List NetConf} {s : Daemon}, (s.vm? a).isSome →
    createTaps env a done l s = .ok (r, s') → r < 0 → (s'.vmOf a).taps = [] := by
  induction l with
  | nil =>
    intro done s _ h hr
    cases h
    exact absurd hr (by decide)
  | cons nc rest ih =>
    intro done s hv h hr
    have hremove : ∀ {t : Daemon}, (t.vm? a).isSome →
        (do let _ ← removeTaps env a; return -1 : Bmd.Prog Int) t = .ok (r, s') → (s'.vmOf a).taps = [] := by
      intro t ht h
      obtain ⟨_, s5, h5, h⟩ := of_bind h
      cases h
      exact removeTaps_tapless hsock ht h5
    obtain ⟨ok, s1, h1, h⟩ := of_bind h
    have hv1 := isSome_run hv h1
    split at h
    · exact ih hv1 h hr
    obtain ⟨o, s2, h2, h⟩ := of_bind h
    have hv2 := isSome_run hv1 h2
    cases o with
    | none => exact hremove hv2 h
    | some name =>
      obtain ⟨_, s3, h3, h⟩ := of_bind h
      have hwrite : Preserves (Silent a) (modVm a ({ · with taps := done ++ { nc with tap := some name } :: rest })) :=
        modVm_writes .taps fun _ => rfl
      have hv3 := isSome_run hv2 h3
      obtain ⟨ok, s4, h4, h⟩ := of_bind h
      have hv4 := isSome_run hv3 h4
      split at h
      · exact hremove hv4 h
      obtain ⟨ok, s5, h5, h⟩ := of_bind h
      have hv5 := isSome_run hv4 h5
      split at h
      · exact hremove hv5 h
      · exact ih hv5 h hr

/-- **Taps that could not be assigned** are gone: the list was empty, and when it has been filled it is emptied. -/
theorem assignTaps_tapless (hv : s.vm? a = some v) (h : assignTaps env a s = .ok (r, s')) (hr : r < 0) :
    (s'.vmOf a).taps = [] := by
  replace h := getVm_bind h
  rw [vmOf_of_vm? hv] at h
  split at h
  · cases h
    exact absurd hr (by decide)
  next hempty =>
  have hnil : v.taps = [] := by simpa using hempty
  have hkept : ∀ {t : Daemon}, Silent a s t → Untouched VmEntry.taps s t → (t.vmOf a).taps = [] := by
    intro t q hret
    obtain ⟨w, hw⟩ := Option.isSome_iff_exists.mp (q.touch.isSome (by rw [hv]; rfl))
    rw [vmOf_of_vm? hw, hret.vmOf hv hw, hnil]
  obtain ⟨conf, s1, h1, h⟩ := of_bind h
  obtain ⟨-, rfl⟩ := getVmConf_ok h1
  obtain ⟨ok, s2, h2, h⟩ := of_bind h
  split at h
  · cases h
    exact hkept (preserved h2) (preserved h2)
  obtain ⟨ok, s3, h3, h⟩ := of_bind h
  have q3 : Silent a s s3 := trans_of (Silent a) (preserved h2) (preserved h3)
  split at h
  · cases h
    exact hkept q3 (trans_of (Untouched VmEntry.taps) (preserved h2) (preserved h3))
  obtain ⟨_, s4, h4, h⟩ := of_bind h
  have hwrite : Preserves (Silent a) (modVm a ({ · with taps := conf.nets.map fun nc => { nc with tap := none } })) :=
    modVm_writes .taps fun _ => rfl
  exact createTaps_tapless hsock (isSome_run (q3.touch.isSome (by rw [hv]; rfl)) h4) h hr

theorem setUpTaps_tapless (hv : s.vm? a = some v) (h : setUpTaps env a s = .ok (r, s')) (hr : r < 0) :
    (s'.vmOf a).taps = [] := by
  replace h := getVm_bind h
  split at h
  · cases h
    exact absurd hr (by decide)
  obtain ⟨r2, s2, h2, h⟩ := of_bind h
  split at h
  · next hneg =>
    cases h
    exact assignTaps_tapless hsock hv h2 hneg
  obtain ⟨r3, s3, h3, h⟩ := of_bind h
  split at h
  · obtain ⟨_, s4, h4, h⟩ := of_bind h
    cases h
    have hv2 : (s2.vm? a).isSome := isSome_run (by rw [hv]; rfl) h2
    exact removeTaps_tapless hsock (isSome_run hv2 h3) h4
  · cases h
    exact absurd hr (by decide)

/-- **`cleanup_virtual_machine`** leaves nothing in the entry. -/
theorem cleanupVirtualMachine_clears (hv : (s.vm? a).isSome) (h : cleanupVirtualMachine env a s = .ok (u, s')) :
    (s'.vmOf a).state = .terminate ∧ (s'.vmOf a).taps = [] ∧ (s'.vmOf a).mapfile = none := by
  obtain ⟨x, s1, h1, h⟩ := of_bind h
  have htaps := removeTaps_tapless hsock hv h1
  have hv1 : (s1.vm? a).isSome := (preserved (R := Silent a) h1).touch.isSome hv
  obtain ⟨_, s2, h2, h⟩ := of_bind h
  obtain ⟨w, s3, h3, h2⟩ := of_bind h2
  obtain ⟨rfl, rfl⟩ := getVm_ok h3
  obtain ⟨_, s4, h4, h2⟩ := of_bind h2
  obtain ⟨_, s5, h5, h2⟩ := of_bind h2
  obtain ⟨_, s6, h6, h2⟩ := of_bind h2
  obtain ⟨_, s7, h7, h2⟩ := of_bind h2
  obtain ⟨_, s8, h8, h2⟩ := of_bind h2
  have hlist : s8.vmList = s1.vmList := by
    rw [(unlinkMapfile_ok h8).1, (vmClose_ok h7).1, (vmClose_ok h6).1, (vmClose_ok h5).1, (vmClose_ok h4).1]
  obtain ⟨v, hv1⟩ := Option.isSome_iff_exists.mp hv1
  have hv8 : s8.vm? a = some v := by rw [Daemon.vm?, hlist]; exact hv1
  have hv2 := modVm_lookup h2 (fun _ => rfl) hv8
  have hs' := of_modify h
  simp only [hv2] at hs'
  have hv' := (vm?_modVm (s := s2) (a := a) (f := ({ · with state := .terminate })) fun _ => rfl)
  rw [hv2] at hv'
  have hof : s'.vmOf a = _ := vmOf_of_vm? (s := s') (by rw [hs']; exact hv')
  rw [vmOf_of_vm? hv1] at htaps
  rw [hof]
  exact ⟨rfl, htaps, rfl⟩

end Releasing

/-! ## Pipes -/

theorem Plumbing.pipeless {wires : Wires} (h : Plumbing a wires [] s) : ∀ p ∈ s.pipes, p.1 ≠ a := by
  rintro ⟨b, fd⟩ hp rfl
  cases h.mine fd hp

theorem Daemon.Piped.pipeless (h : s.Piped) (hv : s.vm? a = some v) (hst : v.state = .terminate) :
    ∀ p ∈ s.pipes, p.1 ≠ a := (h.vacant hv ((h.settled v (mem_of_vm? hv)).1 hst)).pipeless

/-- The pipes are the same. -/
def SamePipes (s s' : Daemon) : Prop := s'.pipes = s.pipes

instance : IsPreorder Daemon SamePipes where
  refl _ := rfl
  trans _ _ _ h h' := Eq.trans h' h

instance : Counts SamePipes := ⟨rfl, rfl⟩

instance SamePipes.changes {k : Store} [h : Holds (k matches .records | .vms | .taps | .files)] : Changes SamePipes k :=
  .of_proj (f := Daemon.pipes) id (by cases k <;> first | exact fun _ => rfl | cases h.holds)

theorem vmClose_keeps {x fd : Fd} (hne : fd ≠ x) (hp : (a, fd) ∈ s.pipes) (h : vmClose x s = .ok (u, s')) :
    (a, fd) ∈ s'.pipes := by
  unfold vmClose whenever at h
  split at h
  · rw [of_modify h]
    exact List.mem_filter.mpr ⟨hp, by simpa using hne⟩
  · cases h
    exact hp

/-- Of a VM whose entry holds no pipe, `cleanup_virtual_machine` closes the log only. -/
theorem cleanupVirtualMachine_keeps {fd : Fd} (hw : s.vm? a = some w) (hvac : w.wires.Vacant) (hreal : fd ≠ -1)
    (hne : fd ≠ w.logfd) (hp : (a, fd) ∈ s.pipes) (h : cleanupVirtualMachine env a s = .ok (u, s')) :
    (a, fd) ∈ s'.pipes := by
  obtain ⟨x, s1, h1, h⟩ := of_bind h
  have htaps : Writes (Untouched fun v => (v.wires, v.logfd)) .taps a := Untouched.writes fun _ => rfl
  have hsame : Untouched (fun v => (v.wires, v.logfd)) s s1 := preserved h1
  obtain ⟨w1, hw1⟩ := Option.isSome_iff_exists.mp (isSome_run (by rw [hw]; rfl) h1)
  obtain ⟨hwires, hlog⟩ := Prod.mk.inj (hsame.vmOf hw hw1)
  rw [← hwires] at hvac
  obtain ⟨hin, hout, herr⟩ : w1.infd = -1 ∧ w1.outfd = -1 ∧ w1.errfd = -1 := hvac
  obtain ⟨_, s2, h2, h⟩ := of_bind h
  replace h2 := getVm_bind h2
  rw [vmOf_of_vm? hw1, hin, hout, herr, hlog] at h2
  obtain ⟨_, s3, h3, h2⟩ := of_bind h2
  obtain ⟨_, s4, h4, h2⟩ := of_bind h2
  obtain ⟨_, s5, h5, h2⟩ := of_bind h2
  obtain ⟨_, s6, h6, h2⟩ := of_bind h2
  obtain ⟨_, s7, h7, h2⟩ := of_bind h2
  have hbefore : SamePipes s s1 := preserved h1
  have hclear : SamePipes s7 s2 := by
    rw [of_modify h2]
    rfl
  have hafter : SamePipes s6 s' := trans_of SamePipes (trans_of SamePipes (preserved h7) hclear) (preserved h)
  unfold SamePipes at hbefore hafter
  rw [← hbefore] at hp
  rw [hafter]
  exact vmClose_keeps hne (vmClose_keeps hreal (vmClose_keeps hreal (vmClose_keeps hreal hp h3) h4) h5) h6

/-- The two ends of a new pipe. -/
theorem pipe_new {p : Fd × Fd} (h : pipe env a s = .ok (some p, s')) :
    p.1 ≠ p.2 ∧ ∀ fd, fd = p.1 ∨ fd = p.2 → (a, fd) ∈ s'.pipes ∧ fd ≠ -1 := by
  obtain ⟨ok, s1, h1, h⟩ := of_bind h
  cases h1
  split at h
  · cases h
  obtain ⟨x, s2, h2, h⟩ := of_bind h
  obtain ⟨y, s3, h3, h⟩ := of_bind h
  obtain ⟨_, s4, h4, h⟩ := of_bind h
  cases h
  rw [of_modify h4]
  cases h2
  cases h3
  have hx := env.fdFresh (s.tick + 1) s.fds
  have hy := env.fdFresh (s.tick + 2) (env.fd (s.tick + 1) s.fds :: s.fds)
  have hne : env.fd (s.tick + 2) (env.fd (s.tick + 1) s.fds :: s.fds) ≠ env.fd (s.tick + 1) s.fds := fun heq =>
    hy.2 (by rw [heq]; exact List.mem_cons_self)
  have hreal : ∀ {fd : Fd}, 0 ≤ fd → fd ≠ -1 := fun h heq => absurd (heq ▸ h) (by decide)
  refine ⟨hne.symm, ?_⟩
  rintro fd (rfl | rfl)
  · exact ⟨List.mem_cons_self, hreal hx.1⟩
  · exact ⟨List.mem_cons_of_mem _ List.mem_cons_self, hreal hy.1⟩

/-- **The input pipe is lost.** Its ends stay open, and no field of the entry holds them. -/
theorem startBhyve_loses (hl : s.losesInput env a = true) (h : startBhyve env a s = .ok (r, s')) :
    Untouched VmEntry.wires s s' ∧
      ∃ p : Fd × Fd, p.1 ≠ p.2 ∧ ∀ fd, fd = p.1 ∨ fd = p.2 → (a, fd) ∈ s'.pipes ∧ fd ≠ -1 := by
  unfold Daemon.losesInput at hl
  split at hl
  case h_2 => cases hl
  rename_i t ht
  replace ht := getVm_bind ht
  replace h := getVm_bind h
  split at ht
  · cases ht
  next hload =>
  rw [if_neg hload] at h
  replace ht := getVmConf_bind ht
  replace h := getVmConf_bind h
  have hk : (s.vmConf a).loaderKind = .grub := by
    by_contra hne
    cases hk : (s.vmConf a).loaderKind <;> simp_all only [not_true_eq_false] <;> cases ht
  simp only [hk] at ht h
  obtain ⟨x, s1, h1, ht⟩ := of_bind ht
  rw [bind_of_ok h1] at h
  split at ht
  · cases ht
  next hneg =>
  rw [if_neg hneg] at h
  replace ht := getVmConf_bind ht
  replace h := getVmConf_bind h
  obtain ⟨cmd, s2, h2, ht⟩ := of_bind ht
  rw [bind_of_ok h2] at h
  obtain ⟨o, s3, h3, ht⟩ := of_bind ht
  rw [bind_of_ok h3] at h
  obtain ⟨hsome, rfl⟩ := pure_ok.mp ht
  -- the pipe
  obtain ⟨p, hp⟩ : ∃ p, pipe env a s2 = .ok (some p, s3) ∧ o = some (some p) := by
    unfold inputPipe at h3
    split at h3
    · cases h3
      cases hsome
    obtain ⟨q, s4, h4, h3⟩ := of_bind h3
    cases q with
    | none =>
      cases h3
      cases hsome
    | some p =>
      cases h3
      exact ⟨p, h4, rfl⟩
  obtain ⟨hpipe, rfl⟩ := hp
  -- the `fork`
  obtain ⟨c, s4, h4, h⟩ := of_bind h
  replace h4 := get_bind h4
  simp only [Option.isNone_iff_eq_none.mp hl] at h4
  cases h4
  cases h
  have hwrite : Writes (Untouched VmEntry.wires) .mapfile a := Untouched.writes fun _ => rfl
  have hsame : Untouched VmEntry.wires s s2 := trans_of (Untouched _) (preserved h1) (preserved h2)
  obtain ⟨hends, hpipes⟩ := pipe_new hpipe
  exact ⟨trans_of (Untouched _) hsame (preserved hpipe), p, hends, hpipes⟩

/-! ## The calls -/

theorem failing_of_ok {c : Option StartCall} (h : failingCall env a s = .ok (c, t)) : s.failing env a = c := by
  rw [Daemon.failing, h]

/-- A call that leaves the life of the VM alone, and its pipes. -/
theorem stopped_of_silent (hp : s.Piped) (hv : s.vm? a = some v) (hvac : v.wires.Vacant) (q : Silent a s s')
    (hu : Unpiped s s') : s'.Stopped cur a ↔
      s.Quiet cur a ∧ v.state = .terminate ∧ (s'.vmOf a).taps = [] ∧ (s'.vmOf a).mapfile = none := by
  obtain ⟨w, hw⟩ := Option.isSome_iff_exists.mp (q.touch.isSome (by rw [hv]; rfl))
  have hst : (s'.vmOf a).state = v.state := by
    rw [vmOf_of_vm? hw]
    exact state_of_view hv hw (q.view a)
  have hpipes := ((hp.vacant hv hvac).unpiped hu).pipeless
  rw [← hst]
  exact ⟨fun h => ⟨q.hushed.quiet_iff.mp h.toQuiet, h.state, h.taps, h.mapfile⟩,
    fun ⟨hq, hst, htaps, hmap⟩ => ⟨q.hushed.quiet hq, hst, htaps, hpipes, hmap⟩⟩

/-- The exit event that has been registered stays when the output cannot be waited for. -/
theorem waitForVmOutput_unclean {pid : Pid} {t₁ t₂ : Daemon} {x : Int} (hcur : ∀ c, cur = some c → c < s.next)
    (h : waitForVm env a pid s = .ok (x, t₁)) (hx : ¬x < 0) (h' : waitForVmOutput env v t₁ = .ok (r, t₂))
    (hab : abandonProcess env a t₂ = .ok (u, s')) : ¬s'.Stopped cur a := by
  obtain ⟨-, -, ⟨hneg, -⟩ | ⟨-, hlist, -⟩⟩ := registerEvent0_spec h
  · omega
  intro hstop
  have hadds : Adds (fun _ => True) t₁ t₂ := registerEvents_adds (fun _ _ _ => trivial) _ _ _ h'
  obtain ⟨new, hnew, -⟩ := hadds.events
  have hsame : SameEvents t₂ s' := preserved hab
  have hmem : Event.key (mkEvent s.next .event { ident := pid, filter := .proc, flags := .add } .onVmExit
      (.vm a) none) ∈
      s'.eventList.map Event.key := by
    rw [hsame, hnew, hlist]
    simp [Event.key, mkEvent]
  obtain ⟨e, he, hk⟩ := List.mem_map.mp hmem
  obtain ⟨haddr, -, hfilter, hdata, -⟩ := by simpa [Event.key, mkEvent] using hk
  refine (hstop.events e he (fun heq => ?_) hdata).1 hfilter
  exact Nat.lt_irrefl _ (haddr ▸ hcur e.addr heq.symm)

/-- The loader runs on when its timer cannot be set. -/
theorem setLoaderTimer_unclean {conf : VmConf} (hv : s.vm? a = some v) (hr : r < 0)
    (h : setLoaderTimer env a conf s = .ok (r, s')) : ¬s'.Stopped cur a := by
  intro hstop
  obtain ⟨g, ⟨hpos, -⟩ | ⟨hst, time, ok, -, -, hview⟩⟩ := setLoaderTimer_spec hv h
  · omega
  obtain ⟨w, hw⟩ := Option.isSome_iff_exists.mp (g.isSome (by rw [hv]; rfl))
  have hstate := view_state hw
  rw [hview] at hstate
  have hload : (s.view a).state = some w.state := hstate
  rw [view_state hv, hst] at hload
  have hterm := hstop.state
  rw [vmOf_of_vm? hw, ← Option.some.inj hload] at hterm
  cases hterm

/-! ## The clean-up -/

section Cleanup

variable {st : State} {kind : ProcKind} (hsock : ∀ n, env.removeSocket n = true)

include hsock

/-- After `cleanup_virtual_machine` only pipes, children and events can be left. -/
theorem stopped_of_cleanup (cur : Option Addr) (hv : (s.vm? a).isSome) (h : cleanupVirtualMachine env a s = .ok (u, s')) :
    Hushed a s s' ∧ (s'.Stopped cur a ↔ s.Quiet cur a ∧ ∀ p ∈ s'.pipes, p.1 ≠ a) := by
  have hsame : SameEvents s s' := preserved h
  obtain ⟨-, e⟩ := cleanupVirtualMachine_spec hv h
  have hush : Hushed a s s' := ⟨(congrArg View.procs e :), hsame⟩
  obtain ⟨hst, htaps, hmap⟩ := cleanupVirtualMachine_clears hsock hv h
  refine ⟨hush, fun hs => ⟨hush.quiet_iff.mp hs.toQuiet, hs.pipes⟩, fun hs => ?_⟩
  exact ⟨hush.quiet hs.1, hst, htaps, hs.2, hmap⟩

/-- A process that cannot be supervised is reaped. -/
theorem abandonProcess_stopped {p : Proc} (hp : s.Piped) (hv : (s.vm? a).isSome) (hpid : (s.view a).pid = p.pid)
    (h : abandonProcess env a s = .ok (u, s')) :
    s'.Stopped cur a ↔ Daemon.Quiet cur a { s with procs := s.procs.filter (·.pid != p.pid) } := by
  obtain ⟨_, s1, h1, h⟩ := of_bind h
  obtain ⟨g1, hprocs1, opened, e1⟩ := poweroffBhyve_spec hv h1
  have hdry1 : Dry s s1 := preserved h1
  have hv1 := g1.isSome hv
  have hpid1 : (s1.vmOf a).pid = p.pid := by
    rw [← view_pid, e1, ← hpid]
    rfl
  replace h := getVm_bind h
  obtain ⟨x, s2, h2, h⟩ := of_bind h
  rw [hpid1] at h2
  have hs2 := (waitpid_spec h2).1
  have hdry2 : Dry s1 s2 := preserved h2
  have hv2 : (s2.vm? a).isSome := hdry2.still.isSome hv1
  obtain ⟨-, hiff⟩ := stopped_of_cleanup hsock cur hv2 h
  have hpiped : s'.Piped := ((hp.unpiped hdry1.unpiped).unpiped hdry2.unpiped).cleanup hv2 h
  obtain ⟨w, hw⟩ : ∃ w, s'.vm? a = some w := by
    obtain ⟨g, -⟩ := cleanupVirtualMachine_spec hv2 h
    exact Option.isSome_iff_exists.mp (g.isSome hv2)
  have hst : w.state = .terminate := by
    rw [← vmOf_of_vm? hw]
    exact (cleanupVirtualMachine_clears hsock hv2 h).1
  rw [hiff, and_iff_left (hpiped.pipeless hw hst)]
  have hevents : s2.eventList.map Event.key = s.eventList.map Event.key := by
    have h1 : SameEvents s s1 := preserved h1
    have h2 : SameEvents s1 s2 := preserved h2
    exact Eq.trans h2 h1
  refine Hushed.quiet_iff ⟨?_, hevents⟩
  rw [hs2, hprocs1]

/-- `VM_START` fails: the VM is stopped unless the input pipe is lost. -/
theorem startBhyve_stopped {wires : Wires} (hp : Plumbing a wires [] s) (hv : s.vm? a = some v)
    (hvac : v.wires.Vacant) (hr : r < 0) (h : startBhyve env a s = .ok (r, t))
    (hc : cleanupVirtualMachine env a t = .ok (u, s')) :
    s'.Stopped cur a ↔ s.Quiet cur a ∧ s.losesInput env a = false := by
  have q : Silent a s t := by
    rcases startBhyve_spec hv h with ⟨-, q⟩ | ⟨hpos, -⟩
    · exact q
    · omega
  have ht : (t.vm? a).isSome := q.touch.isSome (by rw [hv]; rfl)
  obtain ⟨-, hiff⟩ := stopped_of_cleanup hsock cur ht hc
  rw [hiff, q.hushed.quiet_iff]
  refine and_congr_right fun _ => ⟨fun hnone => ?_, fun hkeep => ?_⟩
  · by_contra hlose
    obtain ⟨hsame, p, hends, hpipe⟩ := startBhyve_loses (by simpa using hlose) h
    obtain ⟨w, hw⟩ := Option.isSome_iff_exists.mp ht
    have hvacant : w.wires.Vacant := hsame.vmOf hv hw ▸ hvac
    -- the log is one end of the pipe at most
    obtain ⟨fd, hfd, hne⟩ : ∃ fd, (fd = p.1 ∨ fd = p.2) ∧ fd ≠ w.logfd := by
      by_cases hlog : p.1 = w.logfd
      · exact ⟨p.2, .inr rfl, fun heq => hends (hlog.trans heq.symm)⟩
      · exact ⟨p.1, .inl rfl, hlog⟩
    exact hnone (a, fd) (cleanupVirtualMachine_keeps hw hvacant (hpipe fd hfd).2 hne (hpipe fd hfd).1 hc) rfl
  · have hin : wires.infd = -1 := by
      obtain ⟨w, hw, rfl⟩ := hp.entry
      rw [Option.some.inj (hw.symm.trans hv)]
      exact hvac.1
    rcases startBhyve_attempted hp hin h with ⟨hpos, -⟩ | ⟨-, hkept⟩
    · omega
    have hpiped := cleanupVirtualMachine_piped (hkept (losesInput_iff.mp hkeep)) (by simp) hc
    obtain ⟨g, -⟩ := cleanupVirtualMachine_spec ht hc
    obtain ⟨w, hw⟩ := Option.isSome_iff_exists.mp (g.isSome ht)
    refine hpiped.pipeless hw ?_
    rw [← vmOf_of_vm? hw]
    exact (cleanupVirtualMachine_clears hsock ht hc).1

/-- The process cannot be waited for: it is killed and reaped, and its pipes are closed. -/
theorem waitForVm_stopped {pid : Pid} {t₁ : Daemon} (hsp : Spawned a st kind s t) (hevents : SameEvents s t)
    (hp : t.Piped) (hv : (t.vm? a).isSome) (h : waitForVm env a pid t = .ok (r, t₁)) (hr : r < 0)
    (hab : abandonProcess env a t₁ = .ok (u, s')) :
    s'.Stopped cur a ↔ s.Quiet cur a := by
  obtain ⟨p, -, -, -, -, -, hpid, hprocs, -, hview⟩ := hsp
  obtain ⟨g, ⟨-, hsame, -⟩ | ⟨hpos, -⟩⟩ := waitForVm_spec h
  case inr => omega
  obtain ⟨hrest, -, ⟨-, hlist, -⟩ | ⟨h0, -⟩⟩ := registerEvent0_spec h
  case inr => omega
  have hdry : Dry t t₁ := preserved h
  have hpid₁ : (t₁.view a).pid = p.pid := by
    rw [hsame, hview]
    rfl
  rw [abandonProcess_stopped hsock (hp.unpiped hdry.unpiped) (g.isSome hv) hpid₁ hab]
  refine Hushed.quiet_iff ⟨?_, ?_⟩
  · have hprocs₁ : t₁.procs = p :: s.procs := by
      rw [← hprocs]
      exact (congrArg Daemon.procs hrest :)
    have hkeep : s.procs.filter (·.pid != p.pid) = s.procs := List.filter_eq_self.mpr fun q hq => by
      rw [bne_iff_ne]
      exact fun heq => hpid (heq ▸ List.mem_map_of_mem hq)
    show ((t₁.procs.filter _).filter _) = _
    rw [hprocs₁, List.filter_cons_of_neg (by simp), hkeep]
  · show t₁.eventList.map Event.key = _
    rw [hlist]
    exact hevents

/-- The supervision of a new process fails. -/
theorem superviseProcess_stopped (hsp : Spawned a st kind s t) (hevents : SameEvents s t) (hp : t.Piped)
    (hv : t.vm? a = some w) (hcur : ∀ c, cur = some c → c < s.next) (h : superviseProcess env a t = .ok (-1, s')) :
    ∃ c t', (do
        let v ← getVm a
        if (← waitForVm env a v.pid) < 0 then
          return some StartCall.waitForVm
        if (← waitForVmOutput env v) < 0 then
          return some .waitForVmOutput
        let conf ← getVmConf a
        if (← setLoaderTimer env a conf) < 0 then
          return some .setTimer
        return none : Bmd.Prog (Option StartCall)) t = .ok (some c, t') ∧
      (s'.Stopped cur a ↔ s.Quiet cur a ∧ c.Clean v) := by
  have hsome : (t.vm? a).isSome := by rw [hv]; rfl
  have hnext : ∀ c, cur = some c → c < t.next := by
    obtain ⟨p, -, -, -, -, -, -, -, g, -⟩ := hsp
    exact fun c hc => Nat.lt_of_lt_of_le (hcur c hc) g.next
  rw [getVm, bind_of_ok rfl]
  obtain ⟨ok, t1, h1, h⟩ := of_bind h
  replace h1 := getVm_bind h1
  obtain ⟨x1, t2, h2, h1⟩ := of_bind h1
  rw [bind_of_ok h2]
  by_cases hx1 : x1 < 0
  · -- the process is not waited for
    rw [if_pos hx1] at h1 ⊢
    cases h1
    obtain ⟨_, t3, h3, h⟩ := of_bind h
    cases h
    exact ⟨_, _, rfl, by rw [waitForVm_stopped hsock hsp hevents hp hsome h2 hx1 h3]; simp [StartCall.Clean]⟩
  rw [if_neg hx1] at h1 ⊢
  obtain ⟨x2, t3, h3, h1⟩ := of_bind h1
  rw [bind_of_ok h3]
  cases h1
  by_cases hx2 : x2 < 0
  · -- its output is not waited for
    rw [if_pos hx2]
    rw [if_pos (by simpa using hx2)] at h
    obtain ⟨_, t4, h4, h⟩ := of_bind h
    cases h
    exact ⟨_, _, rfl, iff_of_false (waitForVmOutput_unclean hnext h2 hx1 h3 h4) And.right⟩
  rw [if_neg hx2]
  rw [if_neg (by simpa using hx2)] at h
  replace h := getVmConf_bind h
  rw [getVmConf, bind_of_ok rfl]
  obtain ⟨x4, t4, h4, h⟩ := of_bind h
  rw [bind_of_ok h4]
  by_cases hx4 : x4 < 0
  · -- the timer
    rw [if_pos hx4] at h ⊢
    cases h
    have hdry : Dry t t1 := trans_of Dry (preserved h2) (preserved h3)
    obtain ⟨w3, hw3⟩ := Option.isSome_iff_exists.mp (hdry.still.isSome hsome)
    exact ⟨_, _, rfl, iff_of_false (setLoaderTimer_unclean hw3 hx4 h4) And.right⟩
  · rw [if_neg hx4] at h
    obtain ⟨_, t5, h5, h⟩ := of_bind h
    cases h

/-- The taps cannot be set up. -/
theorem setUpTaps_stopped (hp : s.Piped) (hv : s.vm? a = some v) (hvac : v.wires.Vacant) (q : Silent a s t)
    (hu : Unpiped s t) (hmap : (t.vmOf a).mapfile = v.mapfile) (h : setUpTaps env a t = .ok (r, s')) (hr : r < 0) :
    s'.Stopped cur a ↔ s.Quiet cur a ∧ v.mapfile = none := by
  have hsome : (s.vm? a).isSome := by rw [hv]; rfl
  have q' : Silent a s s' := trans_of (Silent a) q (preserved h)
  obtain ⟨w, hw⟩ := Option.isSome_iff_exists.mp (q.touch.isSome hsome)
  obtain ⟨w', hw'⟩ := Option.isSome_iff_exists.mp (q'.touch.isSome hsome)
  have hst : v.state = .terminate := by
    by_contra hne
    have hst' := state_of_view hv hw (q.view a)
    have := setUpTaps_result (by rw [vmOf_of_vm? hw, hst']; exact hne) h
    omega
  have hmap' : (s'.vmOf a).mapfile = v.mapfile := by
    rw [vmOf_of_vm? hw', (setUpTaps_mapfile h).vmOf hw hw', ← hmap, vmOf_of_vm? hw]
  rw [stopped_of_silent hp hv hvac q' (trans_of Unpiped hu (preserved h)), setUpTaps_tapless hsock hw h hr, hmap', hst]
  simp

end Cleanup

theorem exists_start {P : Int × Daemon → Bool} (h : (startVirtualMachine env a s).toOption.any P = true) :
    ∃ r s', startVirtualMachine env a s = .ok (r, s') ∧ P (r, s') = true := by
  cases hs : startVirtualMachine env a s with
  | error e =>
    rw [hs] at h
    cases h
  | ok p =>
    rw [hs] at h
    exact ⟨p.1, p.2, rfl, h⟩

end Bmd
