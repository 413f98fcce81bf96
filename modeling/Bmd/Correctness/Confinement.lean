import Bmd.Correctness.Aborts
import Bmd.Correctness.Pipes
import Bmd.Correctness.Resources

/-!
# `Correctness.Confinement` — starting one virtual machine leaves the others alone

`start_virtual_machine` can fail in many places. Whatever fails, it changes the entry of its own VM, closes the
descriptors and destroys the tap interfaces that this VM holds, and adds to what exists. One failure is not
contained: when `fork` fails in `exec_bhyve`, the daemon exits.
-/

namespace Bmd

open Lib Lib.Prog

-- the instance for a function is as large as the function
set_option synthInstance.maxSize 1024

variable {s s' t : Daemon} {a b : Addr} {v : VmEntry} {env : Env} {u : Unit} {r : Int} {fd x : Fd} {tap : String}
  {f : VmEntry → VmEntry} {o : Option (Fd × Fd)} {p : Option ((Fd × Fd) × (Fd × Fd))} {l : List NetConf}
  {β : Type}

/-! ## What belongs to others -/

/-- The descriptors in the fields of an entry. -/
def VmEntry.fds (v : VmEntry) : List Fd := [v.infd, v.outfd, v.errfd, v.logfd].filter (· ≠ -1)

/-- A thing that exists and that the VM at `a` does not hold. -/
structure Alien (exist : Daemon → List β) (held : VmEntry → List β) (a : Addr) (z : β) (s : Daemon) : Prop where
  present : z ∈ exist s
  alien : ∀ v, s.vm? a = some v → z ∉ held v

/-- An open descriptor that the VM at `a` does not hold. -/
abbrev Foreign : Addr → Fd → Daemon → Prop := Alien Daemon.fds VmEntry.fds

/-- A tap interface that exists and that the VM at `a` does not hold. -/
abbrev ForeignTap : Addr → String → Daemon → Prop := Alien Daemon.taps VmEntry.tapNames

theorem vm?_modVm_any (hf : ∀ v, (f v).addr = v.addr) :
    (s.modVm b f).vm? a = (s.vm? a).map fun v => if v.addr == b then f v else v :=
  Keyed.find?_map (k := VmEntry.addr) (fun v => by split <;> simp [hf]) s.vmList a

namespace Alien

variable {exist : Daemon → List β} {held : VmEntry → List β} {z : β}

theorem congr (h : Alien exist held a z s) (hv : s'.vmList = s.vmList) (he : exist s' = exist s) :
    Alien exist held a z s' :=
  ⟨he ▸ h.present, fun v hv' => h.alien v (by rw [Daemon.vm?, ← hv]; exact hv')⟩

/-- An entry is written, what it holds apart. -/
theorem modVm (he : ∀ s : Daemon, exist (s.modVm b f) = exist s) (hf : ∀ v, (f v).addr = v.addr)
    (hh : ∀ v, z ∉ held v → z ∉ held (f v)) (s : Daemon) : Carries (Alien exist held a z) s (s.modVm b f) := by
  refine fun h => ⟨he s ▸ h.present, fun v' hv' => ?_⟩
  rw [vm?_modVm_any hf] at hv'
  obtain ⟨v, hv, rfl⟩ := Option.map_eq_some_iff.mp hv'
  have halien := h.alien v hv
  split
  · exact hh v halien
  · exact halien

/-- The entry holds nothing of others. -/
theorem getVm (hnone : ∀ s : Daemon, s.vm? a = none → z ∉ held (s.vmOf a)) :
    Gives (Alien exist held a z) (getVm a) (z ∉ held ·) := by
  intro s v s' hr h
  obtain ⟨rfl, rfl⟩ := getVm_ok hr
  refine ⟨h, ?_⟩
  cases hv : s.vm? a with
  | none => exact hnone s hv
  | some v =>
    rw [vmOf_of_vm? hv]
    exact h.alien v hv

end Alien

/-! ### Descriptors -/

instance : Counts (Carries (Foreign a fd)) := ⟨fun h => h.congr rfl rfl, fun h => h.congr rfl rfl⟩

instance : Eventless (Carries (Foreign a fd)) := ⟨fun h => h.congr rfl rfl⟩

instance Foreign.changes {k : Store} [h : Holds (k matches .records | .taps | .files | .launches)] :
    Changes (Carries (Foreign a fd)) k :=
  .of_proj (f := fun t => (t.vmList, t.fds)) (fun h hf => hf.congr (Prod.mk.inj h).1 (Prod.mk.inj h).2)
    (by cases k <;> first | exact fun _ => rfl | cases h.holds)

instance Foreign.writes {p : Part} [h : Holds (p matches .process | .taps | .mapfile | .vars | .console | .method)] :
    Writes (Carries (Foreign a fd)) p b :=
  .of_proj (f := fun v => (v.addr, v.fds))
    (fun heq _ => Alien.modVm (fun _ => rfl) (fun v => (Prod.mk.inj (heq v)).1) (fun v hv => (Prod.mk.inj (heq v)).2 ▸ hv) _)
    (by cases p <;> first | exact fun _ => rfl | cases h.holds)

instance (st : State) : Enters (Carries (Foreign a fd)) st b :=
  ⟨Alien.modVm (f := ({ · with state := st })) (fun _ => rfl) (fun _ => rfl) (fun _ => id) _⟩

theorem mem_fds : fd ∈ v.fds ↔ (fd = v.infd ∨ fd = v.outfd ∨ fd = v.errfd ∨ fd = v.logfd) ∧ fd ≠ -1 := by
  simp [VmEntry.fds]

theorem modVm_foreign (haddr : ∀ v, (f v).addr = v.addr) (hfds : ∀ v, fd ∉ v.fds → fd ∉ (f v).fds) :
    Preserves (Carries (Foreign a fd)) (modVm b f) := .modify (Alien.modVm (fun _ => rfl) haddr hfds)

theorem newFd_foreign : Gives (Foreign a fd) (newFd env) (· ≠ fd) := by
  intro s x s' hr h
  cases hr
  refine ⟨⟨List.mem_cons_of_mem _ h.present, h.alien⟩, ?_⟩
  intro heq
  exact (env.fdFresh _ _).2 (heq ▸ h.present)

theorem closeFd_foreign (hne : fd ≠ x) : Preserves (Carries (Foreign a fd)) (closeFd x) :=
  .modify fun _ h => ⟨(List.mem_erase_of_ne hne).mpr h.present, h.alien⟩

theorem vmClose_foreign (hne : x ≠ -1 → fd ≠ x) : Preserves (Carries (Foreign a fd)) (vmClose x) := by
  unfold vmClose whenever
  split
  · next hx => exact closeFd_foreign (hne (by simpa using hx))
  · infer_instance

theorem pipe_foreign : Gives (Foreign a fd) (pipe env b) (fd ∉ pipeEnd ·) := by
  refine .bind .of_preserves fun ok _ => ?_
  split
  · exact .pure (by simp [pipeEnd])
  refine newFd_foreign.bind fun x hx => newFd_foreign.bind fun y hy => ?_
  refine Gives.bind (Q := fun _ => True) (fun _ _ _ hr h => ?_) fun _ _ => .pure (by simp [pipeEnd, hx.symm, hy.symm])
  rw [of_modify hr]
  exact ⟨h.congr rfl rfl, trivial⟩

theorem outputPipes_foreign {c : Bool} : Gives (Foreign a fd) (outputPipes env b c) (fun o => fd ∉ pipeEnds o.join) := by
  unfold outputPipes
  split
  · exact .pure (by simp [pipeEnds])
  refine pipe_foreign.bind fun out hout => ?_
  cases out with
  | none => exact .pure (by simp [pipeEnds])
  | some out =>
    refine pipe_foreign.bind fun err herr => ?_
    simp only [pipeEnd, List.mem_cons, List.not_mem_nil, or_false, not_or] at hout
    cases err with
    | none =>
      have h1 := closeFd_foreign (a := a) hout.1
      have h2 := closeFd_foreign (a := a) hout.2
      exact .bind .of_preserves fun _ _ => .bind .of_preserves fun _ _ => .pure (by simp [pipeEnds])
    | some err =>
      simp only [pipeEnd, List.mem_cons, List.not_mem_nil, or_false, not_or] at herr
      exact .pure (by simp [pipeEnds, hout, herr])

theorem closePipes_foreign (hp : fd ∉ pipeEnds p) : Preserves (Carries (Foreign a fd)) (closePipes p) := by
  cases p with
  | none => exact inferInstanceAs (Preserves _ (pure ()))
  | some p =>
    simp only [pipeEnds, List.mem_cons, List.not_mem_nil, or_false, not_or] at hp
    obtain ⟨herr1, herr2, hout1, hout2⟩ := hp
    exact .bind (closeFd_foreign hout1) fun _ => .bind (closeFd_foreign hout2) fun _ =>
      .bind (closeFd_foreign herr1) fun _ => closeFd_foreign herr2

theorem keepReadEnds_foreign (hp : fd ∉ pipeEnds p) : Preserves (Carries (Foreign a fd)) (keepReadEnds b p) := by
  cases p with
  | none => exact inferInstanceAs (Preserves _ (pure ()))
  | some p =>
    simp only [pipeEnds, List.mem_cons, List.not_mem_nil, or_false, not_or] at hp
    refine .bind (closeFd_foreign hp.2.2.2) fun _ => .bind (closeFd_foreign hp.2.1) fun _ =>
      modVm_foreign (fun _ => rfl) fun v hv => ?_
    rw [mem_fds] at hv ⊢
    tauto

theorem inputPipe_foreign {cmd : Bool} : Gives (Foreign a fd) (inputPipe env b cmd) (fun o => fd ∉ pipeEnd o.join) := by
  unfold inputPipe
  split
  · exact .pure (by simp [pipeEnd])
  refine pipe_foreign.bind fun p hp => ?_
  cases p with
  | none | some p => exact .pure hp

theorem keepInput_foreign (ho : fd ∉ pipeEnd o) : Preserves (Carries (Foreign a fd)) (keepInput b o) := by
  cases o with
  | none =>
    refine modVm_foreign (fun _ => rfl) fun v hv => ?_
    rw [mem_fds] at hv ⊢
    tauto
  | some p =>
    simp only [pipeEnd, List.mem_cons, List.not_mem_nil, or_false, not_or] at ho
    refine .bind (closeFd_foreign ho.2) fun _ => modVm_foreign (fun _ => rfl) fun v hv => ?_
    rw [mem_fds] at hv ⊢
    tauto

instance : Preserves (Carries (Foreign a fd)) (bhyveLoad env b) := by
  refine .bind inferInstance fun v => outputPipes_foreign.then fun o ho => ?_
  cases o with
  | none => infer_instance
  | some p =>
    have hclose : Preserves (Carries (Foreign a fd)) (closePipes p) := closePipes_foreign ho
    have hkeep : Preserves (Carries (Foreign a fd)) (keepReadEnds b p) := keepReadEnds_foreign ho
    infer_instance

instance : Preserves (Carries (Foreign a fd)) (execBhyve env b) := by
  refine .bind inferInstance fun v => outputPipes_foreign.then fun o ho => ?_
  cases o with
  | none => infer_instance
  | some p =>
    have hkeep : Preserves (Carries (Foreign a fd)) (keepReadEnds b p) := keepReadEnds_foreign ho
    refine .bind inferInstance fun child => ?_
    split <;> infer_instance

instance : Preserves (Carries (Foreign a fd)) (grubLoad env b) := by
  refine .bind inferInstance fun conf => .bind inferInstance fun cmd => inputPipe_foreign.then fun o ho => ?_
  cases o with
  | none => infer_instance
  | some o =>
    have hkeep : Preserves (Carries (Foreign a fd)) (keepInput b o) := keepInput_foreign ho
    have hclose : Preserves (Carries (Foreign a fd)) (modVm b ({ · with outfd := -1, errfd := -1 })) :=
      modVm_foreign (fun _ => rfl) fun v hv => by
        rw [mem_fds] at hv ⊢
        tauto
    infer_instance

instance : Preserves (Carries (Foreign a fd)) (startBhyve env b) := by
  refine .bind inferInstance fun v => ?_
  split
  · infer_instance
  · refine .bind inferInstance fun conf => ?_
    split <;> infer_instance

instance : Preserves (Carries (Foreign a fd)) (releaseBhyve a) := by
  refine (Alien.getVm fun s hs => by simp [Daemon.vmOf, hs, mem_fds]).then fun v hv => ?_
  have hfield : ∀ y, y = v.infd ∨ y = v.outfd ∨ y = v.errfd ∨ y = v.logfd → y ≠ -1 → fd ≠ y := by
    rintro y hy hne rfl
    exact hv (mem_fds.mpr ⟨hy, hne⟩)
  exact .bind (vmClose_foreign (hfield _ (.inl rfl))) fun _ =>
    .bind (vmClose_foreign (hfield _ (.inr (.inl rfl)))) fun _ =>
    .bind (vmClose_foreign (hfield _ (.inr (.inr (.inl rfl))))) fun _ =>
    .bind (vmClose_foreign (hfield _ (.inr (.inr (.inr rfl))))) fun _ =>
    .bind inferInstance fun _ => modVm_foreign (fun _ => rfl) fun _ _ => by simp [mem_fds]

instance {conf : VmConf} : Preserves (Carries (Foreign a fd)) (openLog env b conf) := by
  have hopen : Gives (Foreign a fd) (openErrLogfile env conf) (fun x => fd = x → fd = -1) := by
    refine .bind .of_preserves fun ok _ => ?_
    split
    · exact .pure id
    split
    · exact .pure id
    · exact newFd_foreign.mono fun x hx heq => (hx heq.symm).elim
  refine .bind inferInstance fun v => ?_
  split
  · refine hopen.then fun x hx => modVm_foreign (fun _ => rfl) fun v hv => ?_
    rw [mem_fds] at hv ⊢
    tauto
  · infer_instance

/-! ### Tap interfaces -/

instance : Counts (Carries (ForeignTap a tap)) := ⟨fun h => h.congr rfl rfl, fun h => h.congr rfl rfl⟩

instance : Eventless (Carries (ForeignTap a tap)) := ⟨fun h => h.congr rfl rfl⟩

instance ForeignTap.changes {k : Store} [h : Holds (k matches .records | .fds | .pipes | .files | .launches)] :
    Changes (Carries (ForeignTap a tap)) k :=
  .of_proj (f := fun t => (t.vmList, t.taps)) (fun h hf => hf.congr (Prod.mk.inj h).1 (Prod.mk.inj h).2)
    (by cases k <;> first | exact fun _ => rfl | cases h.holds)

instance ForeignTap.writes {p : Part}
    [h : Holds (p matches .process | .mapfile | .vars | .console | .wires | .log | .method)] :
    Writes (Carries (ForeignTap a tap)) p b :=
  .of_proj (f := fun v => (v.addr, v.tapNames))
    (fun heq _ => Alien.modVm (fun _ => rfl) (fun v => (Prod.mk.inj (heq v)).1) (fun v hv => (Prod.mk.inj (heq v)).2 ▸ hv) _)
    (by cases p <;> first | exact fun _ => rfl | cases h.holds)

instance (st : State) : Enters (Carries (ForeignTap a tap)) st b :=
  ⟨Alien.modVm (f := ({ · with state := st })) (fun _ => rfl) (fun _ => rfl) (fun _ => id) _⟩

theorem setTaps_foreign (hl : tap ∉ l.filterMap (·.tap)) :
    Preserves (Carries (ForeignTap a tap)) (modVm a ({ · with taps := l })) :=
  .modify (Alien.modVm (fun _ => rfl) (fun _ => rfl) fun _ _ => hl)

theorem destroyTaps_foreign (hl : tap ∉ l.filterMap (·.tap)) :
    Preserves (Carries (ForeignTap a tap)) (destroyTaps env l) := by
  induction l with
  | nil => exact inferInstanceAs (Preserves _ (pure ()))
  | cons nc rest ih =>
    unfold destroyTaps
    cases hn : nc.tap with
    | none => exact ih (by rwa [List.filterMap_cons_none hn] at hl)
    | some t =>
      rw [List.filterMap_cons_some hn, List.mem_cons, not_or] at hl
      refine .bind (.bind inferInstance fun ok => ?_) fun _ => ih hl.2
      split
      · exact .modify fun _ h => ⟨(List.mem_erase_of_ne hl.1).mpr h.present, h.alien⟩
      · infer_instance

instance : Preserves (Carries (ForeignTap a tap)) (removeTaps env a) := by
  refine .bind inferInstance fun ok => ?_
  split
  · infer_instance
  refine (Alien.getVm fun s hs => by simp [Daemon.vmOf, hs, VmEntry.tapNames]).then fun v hv => ?_
  exact .bind (destroyTaps_foreign hv) fun _ => .bind (setTaps_foreign (by simp)) fun _ => inferInstance

/-- A new interface has a name that was not in use. -/
theorem createTap_foreign : Gives (ForeignTap a tap) (createTap env) (· ≠ some tap) := by
  intro s o s' hr h
  replace hr := get_bind hr
  cases hc : env.createTap s.tick s.taps with
  | none =>
    simp only [hc] at hr
    cases hr
    exact ⟨h.congr rfl rfl, by simp⟩
  | some n =>
    simp only [hc] at hr
    cases hr
    refine ⟨⟨List.mem_cons_of_mem _ h.present, h.alien⟩, ?_⟩
    intro heq
    exact env.createTapFresh _ _ _ hc (Option.some.inj heq ▸ h.present)

theorem createTaps_foreign {done : List NetConf} (hl : tap ∉ (done ++ l).filterMap (·.tap)) :
    Preserves (Carries (ForeignTap a tap)) (createTaps env a done l) := by
  induction l generalizing done with
  | nil => exact inferInstanceAs (Preserves _ (pure _))
  | cons nc rest ih =>
    refine .bind inferInstance fun ok => ?_
    split
    · exact ih (by rwa [List.append_assoc, List.singleton_append])
    refine createTap_foreign.then fun o ho => ?_
    cases o with
    | none => infer_instance
    | some t =>
      have hnew : tap ∉ (done ++ { nc with tap := some t } :: rest).filterMap (·.tap) := by
        simp only [List.filterMap_append, List.mem_append, not_or] at hl ⊢
        refine ⟨hl.1, ?_⟩
        simp only [List.filterMap_cons, List.mem_cons, not_or]
        refine ⟨fun heq => ho (by rw [heq]), fun hmem => hl.2 ?_⟩
        rw [show nc :: rest = [nc] ++ rest from rfl, List.filterMap_append]
        exact List.mem_append_right _ hmem
      have hrest := @ih (done ++ [{ nc with tap := some t }]) (by rwa [List.append_assoc, List.singleton_append])
      exact .bind (setTaps_foreign hnew) fun _ => inferInstance

instance : Preserves (Carries (ForeignTap a tap)) (assignTaps env a) := by
  refine .bind inferInstance fun v => ?_
  split
  · infer_instance
  refine .bind inferInstance fun conf => ?_
  have hnone : tap ∉ (conf.nets.map fun nc => { nc with tap := none }).filterMap (·.tap) := by
    simp [List.filterMap_map]
  have hset := setTaps_foreign (a := a) hnone
  have hcreate : Preserves (Carries (ForeignTap a tap)) (createTaps env a [] _) := createTaps_foreign hnone
  infer_instance

/-- A start keeps what the parts keep that open and close descriptors or create and destroy interfaces. -/
theorem startVirtualMachine_preserves {R : Daemon → Daemon → Prop} [IsPreorder Daemon R] [Counts R] [Eventless R]
    [Changes R .records] [Writes R .method a] [Writes R .console a] [Enters R .terminate a] [Preserves R (removeTaps env a)]
    [Preserves R (assignTaps env a)] [Preserves R (startBhyve env a)] [Preserves R (releaseBhyve a)]
    [∀ conf, Preserves R (openLog env a conf)] : Preserves R (startVirtualMachine env a) := by
  have hclean : Preserves R (cleanupVirtualMachine env a) := by
    unfold cleanupVirtualMachine cleanupBhyve
    infer_instance
  have hgive : Preserves R (abandonProcess env a) := by
    unfold abandonProcess
    infer_instance
  have hsup : Preserves R (superviseProcess env a) := by
    unfold superviseProcess
    infer_instance
  have htaps : Preserves R (setUpTaps env a) := by
    unfold setUpTaps
    infer_instance
  unfold startVirtualMachine
  infer_instance

/-! ## Starting in isolation -/

/-- What belongs to other VMs is as it was: their entries, the part of the daemon that their lives depend on, the
    configurations, and what this VM does not hold of the descriptors and the tap interfaces. -/
structure Confined (a : Addr) (s s' : Daemon) : Prop where
  vms : ∀ b, b ≠ a → s'.vm? b = s.vm? b
  views : ∀ b, b ≠ a → s'.view b = s.view b
  confs : s'.confs = s.confs ∧ s'.vmConfList = s.vmConfList
  descriptors : ∀ fd, Foreign a fd s → fd ∈ s'.fds
  taps : ∀ tap, ForeignTap a tap s → tap ∈ s'.taps

/-- **A start that returns is confined**, whatever failed. -/
theorem startVirtualMachine_confined (hw : WF s) (hv : s.vm? a = some v)
    (hr : startVirtualMachine env a s = .ok (r, s')) : Confined a s s' := by
  have hready := hw.ready hv
  obtain ⟨hgrow, -, -⟩ := startVirtualMachine_spec hv hready.method hready.serial hr
  exact {
    vms := fun b hb => hgrow.vm?_of_ne hb
    views := fun b hb => hgrow.view hb
    confs := ⟨(congrArg Daemon.confs hgrow.rest :), (congrArg Daemon.vmConfList hgrow.rest :)⟩
    descriptors := fun fd h => ((startVirtualMachine_preserves (R := Carries _)).keeps _ _ _ hr h).present
    taps := fun tap h => ((startVirtualMachine_preserves (R := Carries _)).keeps _ _ _ hr h).present }

/-! ### Where the daemon stays -/

/-- `exec_bhyve` up to its `fork`: whether it gets there. -/
def execPipes (env : Env) (a : Addr) : Bmd.Prog Bool := do
  let v ← getVm a
  return (← outputPipes env a (dopipe v)).isSome

/-- `start_bhyve` up to the `fork` of `exec_bhyve`. -/
def bhyveAhead (env : Env) (a : Addr) : Bmd.Prog Bool := do
  let v ← getVm a
  if v.state = .load then
    execPipes env a
  else
    let conf ← getVmConf a
    match conf.loaderKind with
    | .uefi =>
      if (← copyUefiVars env a) < 0 then
        return false
      execPipes env a
    | .csm => execPipes env a
    | _ => return false

/-- `create_load_command` calls `inspect`. -/
def VmConf.inspected (conf : VmConf) : Bool :=
  (if conf.install then conf.installcmd else conf.loadcmd).any fun t => strcasecmp t "auto" = 0

/-- `start_bhyve` up to the call of `inspect`. -/
def loaderAhead (env : Env) (a : Addr) : Bmd.Prog Bool := do
  let v ← getVm a
  if v.state = .load then
    return false
  let conf ← getVmConf a
  match conf.loaderKind with
  | .grub =>
    if (← writeMapfile env a) < 0 then
      return false
    return (← getVmConf a).inspected
  | _ => return false

/-- `start_virtual_machine` up to the call of `start_bhyve`, and what it does then. -/
def startAhead (env : Env) (a : Addr) (m : Bmd.Prog Bool) : Bmd.Prog Bool := do
  if (← setVmMethod a) < 0 then
    return false
  if (← assignComport env a) < 0 then
    return false
  if (← setUpTaps env a) < 0 then
    return false
  m

/-- What follows the call of `start_bhyve`, up to the `waitpid` for a process that has got no `SIGKILL`. -/
def reapAhead (env : Env) (a : Addr) : Bmd.Prog Bool := do
  if (← startBhyve env a) < 0 then
    return false
  if ← waitForProcess env a then
    return false
  poweroffBhyve env a
  return (← getVm a).state != .load

/-- `inspect` returns. -/
def Env.Inspects (env : Env) (t : Daemon) : Prop := (env.inspect t.tick).isSome

/-- The process of the VM does not run, or ends while it is waited for. -/
def Env.Ends (env : Env) (a : Addr) (t : Daemon) : Prop :=
  t.isRunning (t.vmOf a).pid = true → env.childEnds t.tick = true

theorem execBhyve_returns_iff : Returns (execBhyve env a) s ↔ Meets env.Forks (execPipes env a) s := by
  obtain ⟨o, s1, h1⟩ := Avoids.returns (outputPipes env a (dopipe (s.vmOf a))) s
  rw [execBhyve, execPipes, Returns.bind_iff rfl, Meets.bind_iff rfl, Returns.bind_iff h1, Meets.bind_iff h1, meets_pure]
  cases o with
  | none => simp [returns_pure]
  | some p =>
    simp only [Option.isSome_some, true_implies, Env.Forks]
    cases hf : env.fork s1.tick (s1.procs.map (·.pid)) with
    | none =>
      refine ⟨fun ⟨x, t, hx⟩ => ?_, nofun⟩
      obtain ⟨o, s2, h2, hx⟩ := of_bind hx
      replace h2 := get_bind h2
      simp only [hf] at h2
      cases h2
      cases hx
    | some pid =>
      have hfork : fork env a .bhyve s1 = .ok (some (pid, s1.next), { s1 with
          tick := s1.tick + 1, next := s1.next + 1,
          procs := { pid := pid, owner := a, serial := s1.next, kind := .bhyve, status := none } :: s1.procs,
          log := .spawn a s1.next .bhyve :: s1.log, launches := s1.launch a .bhyve :: s1.launches }) := by
        rw [fork, bind_of_ok rfl]
        simp only [hf]
        rfl
      rw [Returns.bind_iff hfork]
      exact iff_of_true (Avoids.returns (do keepReadEnds a p; setPid a pid s1.next; setState a .run; return 0) _) rfl

theorem createLoadCommand_returns_iff {conf : VmConf} :
    Returns (createLoadCommand env conf) s ↔ (conf.inspected = true → env.Inspects s) := by
  unfold createLoadCommand VmConf.inspected
  cases (if conf.install then conf.installcmd else conf.loadcmd) with
  | none => simp [returns_pure]
  | some t =>
    by_cases hauto : strcasecmp t "auto" = 0
    · simp only [hauto, if_true, Option.any_some, decide_true, true_implies, Env.Inspects]
      rw [inspect, Returns.bind_iff rfl]
      cases env.inspect s.tick with
      | none => exact iff_of_false not_returns_throw Bool.false_ne_true
      | some found => exact iff_of_true (returns_pure found) rfl
    · simp only [hauto, if_false, Option.any_some, decide_false, Bool.false_eq_true, false_implies, iff_true]
      exact Avoids.returns (ask env.malloc) s

theorem grubLoad_returns_iff : Returns (grubLoad env a) s ↔ ((s.vmConf a).inspected = true → env.Inspects s) := by
  rw [grubLoad, Returns.bind_iff rfl, Returns.bind_total, createLoadCommand_returns_iff]
  intro cmd h
  have hclose : Avoids h (modVm a ({ · with outfd := -1, errfd := -1 })) := modVm_writes .wires fun _ => rfl
  refine .bind inferInstance fun ifd => ?_
  split
  · infer_instance
  · refine .bind inferInstance fun child => ?_
    split
    · infer_instance
    · infer_instance

/-- Code that does not get to the call in question. -/
abbrev stay : Bmd.Prog Bool := pure false

theorem startBhyve_returns_iff : Returns (startBhyve env a) s ↔
    Meets env.Forks (bhyveAhead env a) s ∧ Meets env.Inspects (loaderAhead env a) s := by
  have hneither : ∀ {m : Bmd.Prog Int} [∀ h, Avoids h m] {t : Daemon},
      Returns m t ↔ Meets env.Forks stay t ∧ Meets env.Inspects stay t :=
    fun {m} _ {t} => iff_of_true (Avoids.returns m t) ⟨.of_false, .of_false⟩
  have hexec : ∀ t, Returns (execBhyve env a) t ↔
      Meets env.Forks (execPipes env a) t ∧ Meets env.Inspects stay s := fun t =>
    execBhyve_returns_iff.trans (and_iff_left .of_false).symm
  rw [startBhyve, bhyveAhead, loaderAhead, Returns.bind_iff rfl, Meets.bind_iff rfl, Meets.bind_iff rfl]
  by_cases hst : (s.vmOf a).state = .load
  · rw [if_pos hst, if_pos hst, if_pos hst]
    exact hexec s
  rw [if_neg hst, if_neg hst, if_neg hst, Returns.bind_iff rfl, Meets.bind_iff rfl, Meets.bind_iff rfl]
  cases hk : (s.vmConf a).loaderKind with
  | bhyveload | unknown => exact hneither
  | grub =>
    obtain ⟨x, s1, h1⟩ := Avoids.returns (writeMapfile env a) s
    simp only []
    rw [Returns.bind_iff h1, Meets.bind_iff h1]
    by_cases hneg : x < 0
    · rw [if_pos hneg, if_pos hneg]
      exact iff_of_true (returns_pure _) ⟨.of_false, .of_false⟩
    · rw [if_neg hneg, if_neg hneg, Meets.bind_iff rfl, grubLoad_returns_iff, ← meets_pure]
      exact (and_iff_right Meets.of_false).symm
  | uefi =>
    obtain ⟨x, s1, h1⟩ := Avoids.returns (copyUefiVars env a) s
    simp only []
    rw [Returns.bind_iff h1, Meets.bind_iff h1]
    by_cases hneg : x < 0
    · rw [if_pos hneg, if_pos hneg]
      exact iff_of_true (returns_pure _) ⟨.of_false, .of_false⟩
    · rw [if_neg hneg, if_neg hneg]
      exact hexec s1
  | csm => exact hexec s

/-- A child that is not killed is waited for as long as it runs. -/
theorem waitpid_returns_iff {pid : Pid} {killed : Bool} :
    Returns (waitpid env pid killed) s ↔ (s.isRunning pid = true → killed = false → env.childEnds s.tick = true) := by
  rw [waitpid, Returns.bind_iff rfl, Returns.bind_iff rfl, Returns.bind_total (fun _ h => ?_)]
  · cases s.isRunning pid <;> cases killed <;> cases env.childEnds s.tick <;>
      simp [whenever, returns_pure, not_returns_throw]
  · refine .bind (.modify fun _ => trivial) fun _ => ?_
    split <;> infer_instance

theorem abandonProcess_returns_iff : Returns (abandonProcess env a) s ↔
    Meets (env.Ends a) (do poweroffBhyve env a; return (← getVm a).state != .load) s := by
  obtain ⟨_, s1, h1⟩ := Avoids.returns (poweroffBhyve env a) s
  rw [abandonProcess, Returns.bind_iff h1, Meets.bind_iff h1, Returns.bind_iff rfl, Meets.bind_iff rfl, meets_pure,
    Returns.bind_total fun _ _ => inferInstance, waitpid_returns_iff]
  simp only [Env.Ends, bne_iff_ne, beq_eq_false_iff_ne]
  exact forall_comm

theorem startVirtualMachine_returns_iff : Returns (startVirtualMachine env a) s ↔
    Meets env.Forks (startAhead env a (bhyveAhead env a)) s ∧
    Meets env.Inspects (startAhead env a (loaderAhead env a)) s ∧
    Meets (env.Ends a) (startAhead env a (reapAhead env a)) s := by
  have hnone : ∀ t, Returns (pure (-1) : Bmd.Prog Int) t ↔ Meets env.Forks stay t ∧
      Meets env.Inspects stay t ∧ Meets (env.Ends a) stay t :=
    fun t => iff_of_true (returns_pure _) ⟨.of_false, .of_false, .of_false⟩
  simp only [startVirtualMachine, startAhead]
  obtain ⟨x1, s1, h1⟩ := Avoids.returns (setVmMethod a) s
  rw [Returns.bind_iff h1, Meets.bind_iff h1, Meets.bind_iff h1, Meets.bind_iff h1]
  by_cases hneg : x1 < 0
  · simpa only [hneg, if_true] using hnone s1
  obtain ⟨x2, s2, h2⟩ := Avoids.returns (assignComport env a) s1
  simp only [hneg, if_false]
  rw [Returns.bind_iff h2, Meets.bind_iff h2, Meets.bind_iff h2, Meets.bind_iff h2]
  by_cases hneg : x2 < 0
  · simpa only [hneg, if_true] using hnone s2
  obtain ⟨x3, s3, h3⟩ := Avoids.returns (setUpTaps env a) s2
  simp only [hneg, if_false]
  rw [Returns.bind_iff h3, Meets.bind_iff h3, Meets.bind_iff h3, Meets.bind_iff h3]
  by_cases hneg : x3 < 0
  · simpa only [hneg, if_true] using hnone s3
  simp only [hneg, if_false]
  -- the process exists, or `start_bhyve` has failed
  rw [Returns.bind, startBhyve_returns_iff, reapAhead, Meets.bind, and_assoc]
  refine and_congr_right fun _ => and_congr_right fun _ => forall₂_congr fun x4 s4 => imp_congr_right fun _ => ?_
  by_cases hneg : x4 < 0
  · rw [if_pos hneg, if_pos hneg]
    exact iff_of_true (Avoids.returns (do cleanupVirtualMachine env a; return -1) s4) .of_false
  rw [if_neg hneg, if_neg hneg, superviseProcess]
  obtain ⟨ok, s5, h5⟩ := Avoids.returns (waitForProcess env a) s4
  rw [Returns.bind_iff h5, Meets.bind_iff h5]
  cases ok with
  | true =>
    refine iff_of_true (Avoids.returns (do
      let conf ← getVmConf a
      if (← setLoaderTimer env a conf) < 0 then return -1
      openLog env a conf
      return 0) s5) .of_false
  | false => exact (Returns.bind_total fun _ _ => inferInstance).trans abandonProcess_returns_iff

/-- A system without pipes. -/
def Env.pipeless : Env := { Env.ideal with pipe := fun _ => false }

theorem fork_limited (_ : Nat) (used : List Pid) (p : Pid) (h : (if used = [] then some 1 else none) = some p) :
    0 < p ∧ p ∉ used := by
  split at h
  · next hnil =>
    cases h
    rw [hnil]
    exact ⟨by decide, by simp⟩
  · cases h

/-- A system that allows the daemon one child. -/
def Env.limited : Env :=
  { Env.ideal with fork := fun _ used => if used = [] then some 1 else none, forkFresh := fork_limited }

/-- How a program ends the process. -/
def ending {α : Type} : Except Halt α → Option Halt
  | .error h => some h
  | .ok _ => none

end Bmd
