import Bmd.Correctness.Holdings
import Bmd.Correctness.Unchanged

/-!
# `Correctness.Methods` — the method and the plugin data of a virtual machine

`set_vm_method` copies the method and the plugin data of a configuration into the entry of the VM; every start calls
it again. A reload gives a VM a new configuration and leaves the copy as it is, so that the copy is right only as
long as a reload starts every VM that it finds.
-/

namespace Bmd

open Lib Lib.Prog

variable {s s' t t' s₀ : Daemon} {a b c : Addr} {v w : VmEntry} {env : Env} {u : Unit} {r : Int} {conf : VmConf}
  {f : VmEntry → VmEntry} {ls : List LoadedConf} {l : List Addr} {done new : List Addr}

/-- The VM has the method and the plugin data that `set_vm_method` finds in its configuration. -/
def Daemon.Current (s : Daemon) (v : VmEntry) : Prop :=
  ∃ m i, s.methodOf v.conf = some (m, i) ∧ v.method = some m ∧ v.plConf = some (v.conf, i)

/-- Every VM has; and no two VMs have one address. -/
structure Daemon.AllCurrent (s : Daemon) : Prop where
  nodup : (s.vmList.map (·.addr)).Nodup
  current : ∀ v ∈ s.vmList, s.Current v

/-! ## Functions that leave the method alone -/

/-- The part of an entry that belongs to a configuration. -/
def VmEntry.wiring (v : VmEntry) : Addr × Addr × Option Addr × Option VmMethod × Option (Addr × Nat) :=
  (v.addr, v.conf, v.newConf, v.method, v.plConf)

/-- No VM gets a configuration or a method, and no configuration changes its method. -/
structure Wired (s s' : Daemon) : Prop where
  vms : s'.vmList.map VmEntry.wiring = s.vmList.map VmEntry.wiring
  methodOf : s'.methodOf = s.methodOf

instance : IsPreorder Daemon Wired where
  refl _ := ⟨rfl, rfl⟩
  trans _ _ _ h h' := ⟨h'.vms.trans h.vms, h'.methodOf.trans h.methodOf⟩

theorem Still.wired (h : Still s s') : Wired s s' := by
  refine ⟨?_, h.methodOf⟩
  have hm := congrArg (List.map fun x : Holding => (x.addr, x.conf, x.newConf, x.method, x.plConf)) h.vms
  rw [List.map_map, List.map_map] at hm
  exact hm

theorem Wired.of_eq (hv : s'.vmList = s.vmList) (hc : s'.confs = s.confs) : Wired s s' := by
  refine ⟨by rw [hv], ?_⟩
  funext x
  simp only [Daemon.methodOf, Daemon.conf?, hc]

theorem modVm_wired (hf : ∀ v, (f v).wiring = v.wiring) : Wired s (s.modVm a f) := by
  exact ⟨Keyed.map_update (k := VmEntry.addr) hf s.vmList a, rfl⟩

theorem addrs_modVm (hf : ∀ v, (f v).addr = v.addr) : (s.modVm a f).vmList.map (·.addr) = s.vmList.map (·.addr) :=
  Keyed.map_update (k := VmEntry.addr) hf s.vmList a

instance : Counts Wired := ⟨.of_eq rfl rfl, .of_eq rfl rfl⟩

instance : Eventless Wired := ⟨.of_eq rfl rfl⟩

instance : Marks Wired := ⟨fun ha hb hp _ => ⟨rfl, methodOf_modConf ha hb hp⟩⟩

instance Wired.changes {k : Store} [h : Holds (k matches .records | .fds | .pipes | .taps | .files | .launches)] :
    Changes Wired k := by
  refine .of_proj (f := fun t => (t.vmList, t.confs)) (fun h => ?_)
    (by cases k <;> first | exact fun _ => rfl | cases h.holds)
  exact .of_eq (Prod.mk.inj h).1 (Prod.mk.inj h).2

instance Wired.writes {p : Part}
    [h : Holds (p matches .process | .taps | .mapfile | .vars | .console | .wires | .log)] :
    Writes Wired p a := .of_proj (fun hw _ => modVm_wired hw)
      (by cases p <;> first | exact fun _ => rfl | cases h.holds)

instance (st : State) : Enters Wired st a := ⟨modVm_wired fun _ => rfl⟩

/-! ## Starting -/

theorem Daemon.Current.of_wiring (h : s.Current v) (hm : s'.methodOf = s.methodOf) (hw : w.wiring = v.wiring) :
    s'.Current w := by
  obtain ⟨m, i, hmeth, hmv, hpv⟩ := h
  have hconf : w.conf = v.conf := congrArg (·.2.1) hw
  have hmethod : w.method = v.method := congrArg (·.2.2.2.1) hw
  have hpl : w.plConf = v.plConf := congrArg (·.2.2.2.2) hw
  exact ⟨m, i, by rw [hm, hconf, hmeth], by rw [hmethod, hmv], by rw [hpl, hpv, hconf]⟩

namespace Wired

theorem addrs (h : Wired s s') : s'.vmList.map (·.addr) = s.vmList.map (·.addr) := by
  have hm := congrArg (List.map (·.1)) h.vms
  rw [List.map_map, List.map_map] at hm
  exact hm

theorem conf_eq (h : Wired s s') (hv : s.vm? a = some v) : ∃ w, s'.vm? a = some w ∧ w.conf = v.conf := by
  have heq : (s'.vm? a).map VmEntry.wiring = (s.vm? a).map VmEntry.wiring :=
    Keyed.map_find? (k := VmEntry.addr) (·.1) (fun _ => rfl) h.vms a
  rw [hv] at heq
  obtain ⟨w, hw, hwv⟩ := Option.map_eq_some_iff.mp heq
  exact ⟨w, hw, congrArg (·.2.1) hwv⟩

theorem exists_mem (h : Wired s s') (hv : w ∈ s'.vmList) : ∃ v ∈ s.vmList, w.wiring = v.wiring := by
  have hmem : w.wiring ∈ s.vmList.map VmEntry.wiring := by
    rw [← h.vms]
    exact List.mem_map_of_mem hv
  obtain ⟨v, hv, heq⟩ := List.mem_map.mp hmem
  exact ⟨v, hv, heq.symm⟩

theorem allCurrent (h : Wired s s') (hs : s.AllCurrent) : s'.AllCurrent := by
  refine ⟨by rw [h.addrs]; exact hs.nodup, fun w hw => ?_⟩
  obtain ⟨v, hv, heq⟩ := h.exists_mem hw
  exact (hs.current v hv).of_wiring h.methodOf heq

end Wired

/-- **`set_vm_method`** brings one VM up to date. -/
theorem setVmMethod_current (hnd : (s.vmList.map (·.addr)).Nodup) (hv : s.vm? a = some v)
    (hm : (s.methodOf v.conf).isSome) (hrest : ∀ w ∈ s.vmList, w.addr ≠ a → s.Current w)
    (h : setVmMethod a s = .ok (r, s')) : r = 0 ∧ s'.AllCurrent := by
  replace h := get_bind h
  rw [vmOf_of_vm? hv] at h
  obtain ⟨p, hp⟩ := Option.isSome_iff_exists.mp hm
  simp only [hp] at h
  obtain ⟨_, s1, h1, h⟩ := of_bind h
  cases h
  have hs1 := of_modify h1
  refine ⟨rfl, ?_, fun w hw => ?_⟩
  · rw [hs1, addrs_modVm]
    · exact hnd
    · exact fun _ => rfl
  · rw [hs1] at hw ⊢
    obtain ⟨x, hx, rfl⟩ := List.mem_map.mp hw
    split
    · next hxa =>
      have hfind := Keyed.find?_of_mem (k := VmEntry.addr) hnd hx
      rw [beq_iff_eq.mp hxa] at hfind
      have heq : v = x := Option.some.inj (hv.symm.trans hfind)
      subst heq
      exact ⟨p.1, p.2, hp, rfl, rfl⟩
    · next hxa => exact hrest x hx (by simpa using hxa)

/-- What `start_virtual_machine` does once the VM has its method. -/
theorem startVirtualMachine_wired (h : startVirtualMachine env a s = .ok (r, s')) :
    ∃ r₁ s₁, setVmMethod a s = .ok (r₁, s₁) ∧ Wired s₁ s' := by
  obtain ⟨r₁, s₁, h₁, h⟩ := of_bind h
  refine ⟨r₁, s₁, h₁, ?_⟩
  have hwired : Preserves Wired (do
      if r₁ < 0 then
        return -1
      if (← assignComport env a) < 0 then
        return -1
      if (← setUpTaps env a) < 0 then
        return -1
      if (← startBhyve env a) < 0 then
        cleanupVirtualMachine env a
        return -1
      superviseProcess env a : Bmd.Prog Int) := by
    split
    · infer_instance
    refine .bind inferInstance fun _ => ?_
    split
    · infer_instance
    refine .bind inferInstance fun _ => ?_
    split
    · infer_instance
    · exact .bind inferInstance fun _ => inferInstance
  exact hwired.keeps _ _ _ h

/-- **`start_virtual_machine`**, whichever configuration the VM was given before. -/
theorem startVirtualMachine_current (hnd : (s.vmList.map (·.addr)).Nodup) (hv : s.vm? a = some v)
    (hm : (s.methodOf v.conf).isSome) (hrest : ∀ w ∈ s.vmList, w.addr ≠ a → s.Current w)
    (h : startVirtualMachine env a s = .ok (r, s')) : s'.AllCurrent := by
  obtain ⟨r₁, s₁, h₁, hwired⟩ := startVirtualMachine_wired h
  exact hwired.allCurrent (setVmMethod_current hnd hv hm hrest h₁).2

/-- It does not change the configuration. -/
theorem startVirtualMachine_conf (hv : s.vm? a = some v) (h : startVirtualMachine env a s = .ok (r, s')) :
    ∃ w, s'.vm? a = some w ∧ w.conf = v.conf := by
  obtain ⟨r₁, s₁, h₁, hwired⟩ := startVirtualMachine_wired h
  have hv₁ : ∃ w, s₁.vm? a = some w ∧ w.conf = v.conf := by
    replace h₁ := get_bind h₁
    cases hm : s.methodOf (s.vmOf a).conf with
    | none =>
      simp only [hm] at h₁
      cases h₁
      exact ⟨v, hv, rfl⟩
    | some p =>
      simp only [hm] at h₁
      obtain ⟨_, s2, h2, h₁⟩ := of_bind h₁
      cases h₁
      exact ⟨_, modVm_lookup h2 (fun _ => rfl) hv, rfl⟩
  obtain ⟨w, hw, hwc⟩ := hv₁
  obtain ⟨x, hx, hxw⟩ := hwired.conf_eq hw
  exact ⟨x, hx, hxw.trans hwc⟩

namespace Daemon.AllCurrent

/-- The pointer to the new configuration is none of the method's business. -/
theorem of_map
    (hf : ∀ v, (f v).addr = v.addr ∧ (f v).conf = v.conf ∧ (f v).method = v.method ∧ (f v).plConf = v.plConf)
    (hvms : s'.vmList = s.vmList.map f) (hm : s'.methodOf = s.methodOf) (hs : s.AllCurrent) : s'.AllCurrent := by
  refine ⟨?_, fun w hw => ?_⟩
  · rw [hvms, List.map_map, show (·.addr) ∘ f = VmEntry.addr from funext fun v => (hf v).1]
    exact hs.nodup
  · rw [hvms] at hw
    obtain ⟨v, hv, rfl⟩ := List.mem_map.mp hw
    obtain ⟨m, i, hmeth, hmv, hpv⟩ := hs.current v hv
    obtain ⟨-, hconf, hmethod, hpl⟩ := hf v
    exact ⟨m, i, by rw [hm, hconf, hmeth], by rw [hmethod, hmv], by rw [hpl, hpv, hconf]⟩

/-- The other VMs stay up to date when one of them is given another configuration. -/
theorem others (hs : s.AllCurrent) (hstill : Still (s.modVm a ({ · with conf := c })) t)
    (hv : w ∈ t.vmList) (ha : w.addr ≠ a) : t.Current w := by
  obtain ⟨x, hx, heq⟩ := hstill.wired.exists_mem hv
  obtain ⟨y, hy, rfl⟩ := List.mem_map.mp hx
  have haddr : w.addr = (if y.addr == a then { y with conf := c } else y).addr := congrArg (·.1) heq
  have hya : y.addr ≠ a := by
    intro h
    rw [if_pos (beq_iff_eq.mpr h)] at haddr
    exact ha (haddr.trans h)
  rw [if_neg (by simpa using hya)] at heq
  exact (hs.current y hy).of_wiring hstill.methodOf heq

end Daemon.AllCurrent

theorem methodOf_allocConfs (hw : WF s) (h : allocConfs ls s = .ok (l, s'))
    (hc : (s.conf? c).isSome) : s'.methodOf c = s.methodOf c := by
  obtain ⟨e, he⟩ := Option.isSome_iff_exists.mp hc
  rw [Daemon.methodOf, Daemon.methodOf, he, allocConfs_old hw h he]

/-- The VM that was given a configuration has it. -/
theorem conf_of_switch (hv : (s.vm? a).isSome) (hstill : Still (s.modVm a ({ · with conf := c })) t) :
    ∃ w, t.vm? a = some w ∧ w.conf = c := by
  obtain ⟨v, hv⟩ := Option.isSome_iff_exists.mp hv
  have hv' : (s.modVm a ({ · with conf := c })).vm? a = some { v with conf := c } := by
    rw [vm?_modVm, hv]
    · rfl
    · exact fun _ => rfl
  exact hstill.wired.conf_eq hv'

/-- All that the daemon does apart from reloading. -/
theorem allCurrent_kept : Kept env (fun _ => True) (fun _ => True) Daemon.AllCurrent where
  nodup hs := hs.nodup
  dry h hs := h.still.wired.allCurrent hs
  idle _ _ _ := trivial
  loaded _ _ _ _ := trivial
  reboot _ _ _ _ := trivial
  finish _ h hs := (preserved (R := Wired) h).allCurrent hs
  read h hs := (preserved (R := Wired) h).allCurrent hs
  load {s s' ls l} hw h hs := by
    have hvms := (allocConfs_confSide ls _ _ _ h).vms
    refine ⟨by rw [hvms]; exact hs.nodup, fun v hv => ?_⟩
    rw [hvms] at hv
    obtain ⟨m, i, hmeth, hrest⟩ := hs.current v hv
    exact ⟨m, i, (methodOf_allocConfs hw h (hw.vmConf v hv)).trans hmeth, hrest⟩
  create {s c m j} hw hm hs := by
    refine ⟨List.nodup_cons.mpr ⟨hw.next_free, hs.nodup⟩, fun v hv => ?_⟩
    rcases List.mem_cons.mp hv with rfl | hv
    · exact ⟨m, j, hm, rfl, rfl⟩
    · exact hs.current v hv
  start {s s' a v r} hv _ h hs := by
    obtain ⟨m, i, hmeth, -⟩ := hs.current v (mem_of_vm? hv)
    exact startVirtualMachine_current hs.nodup hv (by rw [hmeth]; rfl) (fun w hw _ => hs.current w hw) h
  switch {s t s' a c v r} hv _ hc hdry h hs := by
    have hstill := hdry.still
    obtain ⟨w, hw, hconf⟩ := conf_of_switch (by rw [hv]; rfl) hstill
    have hm : (t.methodOf w.conf).isSome := by
      rw [hconf, hstill.methodOf, methodOf_isSome]
      exact hc
    have hnd : (t.vmList.map (·.addr)).Nodup := by
      rw [hstill.addrs, addrs_modVm]
      · exact hs.nodup
      · exact fun _ => rfl
    exact startVirtualMachine_current hnd hw hm (fun x hx hxa => hs.others hstill hx hxa) h
  stop {s s' a u} hv h hs := (preserved (R := Wired) h).allCurrent hs
  forget {s s' a v u} hv hst h hs := by
    rw [of_modify h]
    exact ⟨hs.nodup.sublist (List.filter_sublist.map _), fun w hw => hs.current w (List.mem_filter.mp hw).1⟩
  mark {s a c} hs := by
    refine hs.of_map (fun v => ?_) rfl rfl
    split <;> exact ⟨rfl, rfl, rfl, rfl⟩
  clear {s s' u} h hs := by
    rw [of_modify h]
    exact hs.of_map (f := ({ · with newConf := none })) (fun _ => ⟨rfl, rfl, rfl, rfl⟩) rfl rfl

/-! ## A reload that starts every VM it finds -/

/-- A VM of the list after the operation is one of before, with the same configuration and method. -/
def Sheds (s s' : Daemon) : Prop := ∀ w ∈ s'.vmList, ∃ v ∈ s.vmList, w.wiring = v.wiring

instance : IsPreorder Daemon Sheds where
  refl _ w hw := ⟨w, hw, rfl⟩
  trans _ _ _ h h' w hw := by
    obtain ⟨x, hx, heq⟩ := h' w hw
    obtain ⟨v, hv, heq'⟩ := h x hx
    exact ⟨v, hv, heq.trans heq'⟩

instance (priority := low) {α : Type} (m : Bmd.Prog α) [h : Preserves Wired m] : Preserves Sheds m :=
  .of_keeps (h.keeps.mono fun _ _ hwired _ => hwired.exists_mem)

instance : Preserves Sheds (vmListRemove a) := .modify fun _ w hw => ⟨w, (List.mem_filter.mp hw).1, rfl⟩

instance : Preserves Sheds (dropVm env v conf) := by
  unfold dropVm
  split <;> infer_instance

/-- **In the second pass** a VM with a new configuration has it already. -/
structure Daemon.Adopted (s : Daemon) : Prop where
  current : s.AllCurrent
  conf : ∀ v ∈ s.vmList, ∀ c, v.newConf = some c → v.conf = c

theorem settleVm_adopted (hw : WF s) (hs : s.Adopted) (h : settleVm env a s = .ok (u, s')) : s'.Adopted := by
  replace h := get_bind h
  cases hv : s.vm? a with
  | none =>
    simp only [hv] at h
    cases h
    exact hs
  | some v =>
    simp only [hv] at h
    have hva := addr_of_vm? hv
    cases hn : v.newConf with
    | none =>
      simp only [hn] at h
      refine ⟨allCurrent_kept.dropVm (by rw [hva]; exact hv) h hs.current, fun w hw c hc => ?_⟩
      obtain ⟨x, hx, heq⟩ := preserved (R := Sheds) h w hw
      have hconf : w.conf = x.conf := congrArg (·.2.1) heq
      have hnew : w.newConf = x.newConf := congrArg (·.2.2.1) heq
      rw [hconf]
      exact hs.conf x hx c (hnew ▸ hc)
    | some c =>
      simp only [hn] at h
      rw [of_modify h]
      have hvc := hs.conf v (mem_of_vm? hv) c hn
      have hone : ∀ x ∈ s.vmList, x.addr = a → x = v := fun x hx hxa =>
        Option.some.inj ((hxa ▸ hw.vm?_of_mem hx).symm.trans hv)
      refine ⟨⟨?_, fun w hw => ?_⟩, fun w hw y hy => ?_⟩
      · rw [addrs_modVm]
        · exact hs.current.nodup
        · exact fun _ => rfl
      · obtain ⟨x, hx, rfl⟩ := List.mem_map.mp hw
        have hx' := hs.current.current x hx
        split
        · next hxa =>
          obtain rfl := hone x hx (beq_iff_eq.mp hxa)
          rw [← hvc]
          exact hx'
        · exact hx'
      · obtain ⟨x, hx, rfl⟩ := List.mem_map.mp hw
        split at hy
        · cases hy
        · next hxa =>
          rw [if_neg hxa]
          exact hs.conf x hx y hy

theorem settleVms_adopted (hw : WF s) (hcmd : ∀ a, (s.view a).Recalled) (hs : s.Adopted)
    (h : settleVms env l s = .ok (u, s')) : s'.Adopted := by
  induction l generalizing s with
  | nil =>
    cases h
    exact hs
  | cons a rest ih =>
    obtain ⟨_, s1, h1, h⟩ := of_bind h
    obtain ⟨t1, cmd1, -⟩ := settleVm_obeys a h1 hw hcmd
    exact ih t1.wf cmd1 (settleVm_adopted hw hs h1) h

/-- What is left to do after the two passes. -/
theorem finishReload_current (hw : WF s) (hcmd : ∀ a, (s.view a).Recalled) (hs : s.Adopted)
    (h : finishReload env l s = .ok (u, s')) : s'.AllCurrent := by
  replace h := get_bind h
  obtain ⟨_, s2, h2, h⟩ := of_bind h
  replace h := get_bind h
  obtain ⟨_, s4, h4, h⟩ := of_bind h
  have still4 : Still s2 s4 := preserved h4
  have still5 : Still s4 s' := by
    rw [of_modify h]
    exact .of_eq rfl rfl rfl rfl
  exact (trans_of Still still4 still5).wired.allCurrent (settleVms_adopted hw hcmd hs h2).current

/-- The reload finds the VM and starts it with the new configuration. -/
def VmEntry.StartsWith (v : VmEntry) (old new : VmConf) : Prop :=
  v.state = .terminate ∧ (new.boot = .yes ∨ new.boot = .always) ∧ new.boot ≠ old.boot ∧ new.rebootOnChange = false

instance (v : VmEntry) (old new : VmConf) : Decidable (v.StartsWith old new) :=
  inferInstanceAs (Decidable (_ ∧ _ ∧ _ ∧ _))

theorem changeBoot_starts (hst : v.state = .terminate) (hb : conf.boot = .yes ∨ conf.boot = .always)
    (hv : (s.vm? v.addr).isSome) (h : changeBoot env v c conf s = .ok (u, s')) :
    ∃ w, s'.vm? v.addr = some w ∧ w.conf = c := by
  have hrun : (do
      modVm v.addr ({ · with conf := c })
      let _ ← startVirtualMachine env v.addr : Bmd.Prog Unit) s = .ok (u, s') := by
    unfold changeBoot at h
    rcases hb with hb | hb <;> simpa only [hb, hst, if_pos] using h
  obtain ⟨_, s1, h1, hrun⟩ := of_bind hrun
  obtain ⟨r, s2, h2, hrun⟩ := of_bind hrun
  cases hrun
  obtain ⟨v0, hv0⟩ := Option.isSome_iff_exists.mp hv
  exact startVirtualMachine_conf (modVm_lookup h1 (fun _ => rfl) hv0) h2

theorem reloadOldVm_starts (hv : (s.vm? v.addr).isSome) (hgo : v.StartsWith (s.confOf v.conf) conf)
    (h : reloadOldVm env v c conf s = .ok (u, s')) : ∃ w, s'.vm? v.addr = some w ∧ w.conf = c := by
  obtain ⟨hst, hboot, hne, hchange⟩ := hgo
  replace h := get_bind h
  obtain ⟨_, s1, h1, h⟩ := of_bind h
  have still1 : Still s s1 := preserved h1
  obtain ⟨_, s2, h2, h⟩ := of_bind h
  have hv2 : (s2.vm? v.addr).isSome := by
    rw [of_modify h2]
    exact isSome_modVm (fun _ => rfl) (still1.isSome hv)
  -- no reboot, and another boot setting
  rw [if_neg (fun hc => by simp [hchange] at hc), if_neg hne] at h
  exact changeBoot_starts hst hboot hv2 h

/-- **In the first pass** a VM is as it was before it, or was created or started with its new configuration. -/
def Daemon.Taken (s₀ : Daemon) (done : List Addr) (s : Daemon) : Prop :=
  ∀ v ∈ s.vmList, (v.newConf = none ∧ s₀.vm? v.addr = some v) ∨ ∃ c ∈ done, v.newConf = some c ∧ v.conf = c

/-- One VM has got a new configuration. -/
theorem Daemon.Taken.take (h : s₀.Taken done s) (hw' : WF s')
    (hnear : Near b s s') (hb : ∃ v, s'.vm? b = some v ∧ v.newConf = some c ∧ v.conf = c) :
    s₀.Taken (c :: done) s' := by
  intro v hv
  have hv' := hw'.vm?_of_mem hv
  by_cases hvb : v.addr = b
  · obtain ⟨x, hx, hn, hc⟩ := hb
    rw [hvb, hx] at hv'
    cases hv'
    exact .inr ⟨c, List.mem_cons_self, hn, hc⟩
  · rw [hnear.1 v.addr hvb] at hv'
    rcases h v (mem_of_vm? hv') with hold | ⟨x, hx, hnew⟩
    · exact .inl hold
    · exact .inr ⟨x, List.mem_cons_of_mem _ hx, hnew⟩

/-- One configuration of the new list. -/
theorem reloadConf_taken (hw : WF s) (hcmd : ∀ a, (s.view a).Recalled) (hc : (s.conf? c).isSome)
    (hgo : ∀ v, s₀.vm? v.addr = some v → s.nameOf v.conf = s.nameOf c → v.StartsWith (s.confOf v.conf) (s.confOf c))
    (hnew : ∀ x ∈ done, s.nameOf x ≠ s.nameOf c) (ht : s₀.Taken done s)
    (h : reloadConf env c s = .ok (true, s')) : s₀.Taken (c :: done) s' := by
  have hspec := reloadConf_spec hw hcmd hc h
  obtain ⟨t', -, -⟩ := hspec.obeys hw hcmd
  cases hspec with
  | created hnone hcr hnew' =>
    obtain ⟨v, hv, hvc, -⟩ := hcr.entry
    obtain ⟨w, hw₁, hwn⟩ := hnew'
    rw [hv] at hw₁
    cases hw₁
    exact ht.take t'.wf hcr.near ⟨v, hv, hwn, hvc⟩
  | found hlook hr hnew' =>
    next v =>
    obtain ⟨hv, hname⟩ := lookupVmByName_vm? hw hlook
    replace h := get_bind h
    simp only [hlook] at h
    obtain ⟨_, s1, h1, h⟩ := of_bind h
    cases h
    -- the VM was not given a configuration before, since that one would have its name
    have hold : s₀.vm? v.addr = some v := by
      rcases ht v (mem_of_vm? hv) with ⟨-, hold⟩ | ⟨x, hx, -, hvx⟩
      · exact hold
      · rw [hvx] at hname
        exact (hnew x hx hname).elim
    obtain ⟨w, hw₁, hwc⟩ := reloadOldVm_starts (by rw [hv]; rfl) (hgo v hold hname) h1
    obtain ⟨x, hx, hxn⟩ := hnew'
    rw [hw₁] at hx
    cases hx
    exact ht.take t'.wf hr.near ⟨w, hw₁, hxn, hwc⟩

/-- **The first pass**, if it does not stop at a VM that cannot be created. -/
theorem reloadConfs_taken (hw : WF s) (hcmd : ∀ a, (s.view a).Recalled) (hl : ∀ c ∈ l, (s.conf? c).isSome)
    (hgo : ∀ c ∈ l, ∀ v, s₀.vm? v.addr = some v → s.nameOf v.conf = s.nameOf c →
      v.StartsWith (s.confOf v.conf) (s.confOf c))
    (hnd : (l.map s.nameOf).Nodup) (hnew : ∀ x ∈ done, ∀ c ∈ l, s.nameOf x ≠ s.nameOf c) (ht : s₀.Taken done s)
    (h : reloadConfs env l s = .ok (true, s')) : ∃ done', s₀.Taken done' s' := by
  induction l generalizing s done with
  | nil =>
    cases h
    exact ⟨done, ht⟩
  | cons c rest ih =>
    obtain ⟨ok, s1, h1, h⟩ := of_bind h
    cases ok with
    | false => cases h
    | true =>
      have hmem : c ∈ c :: rest := List.mem_cons_self
      have hspec := reloadConf_spec hw hcmd (hl c hmem) h1
      obtain ⟨t1, cmd1, -⟩ := hspec.obeys hw hcmd
      have ht1 := reloadConf_taken hw hcmd (hl c hmem) (hgo c hmem) (fun x hx => hnew x hx c hmem) ht h1
      -- the configurations are those of before
      have hconfs : s1.confOf = s.confOf := by
        have hc : s1.confs = s.confs := (congrArg Daemon.confs hspec.rest :)
        funext x
        rw [Daemon.confOf, Daemon.confOf, Daemon.conf?, Daemon.conf?, hc]
      have hnames : s1.nameOf = s.nameOf := by
        funext x
        rw [Daemon.nameOf, hconfs, Daemon.nameOf]
      obtain ⟨hfresh, hnd'⟩ := List.nodup_cons.mp hnd
      refine ih t1.wf cmd1 (fun x hx => t1.confs x (hl x (List.mem_cons_of_mem _ hx))) ?_ ?_ ?_ ht1 h
      · rw [hconfs, hnames]
        exact fun x hx => hgo x (List.mem_cons_of_mem _ hx)
      · rw [hnames]
        exact hnd'
      · rw [hnames]
        intro x hx y hy
        rcases List.mem_cons.mp hx with rfl | hx
        · intro heq
          exact hfresh (heq ▸ List.mem_map_of_mem hy)
        · exact hnew x hx y (List.mem_cons_of_mem _ hy)

/-- The configurations of `ls` have distinct names, and the VMs with these names will be started. -/
structure Daemon.Refreshed (s : Daemon) (ls : List LoadedConf) : Prop where
  nodup : (ls.map (·.conf.name)).Nodup
  starts : ∀ l ∈ ls, ∀ v ∈ s.vmList, s.nameOf v.conf = l.conf.name → v.StartsWith (s.confOf v.conf) l.conf

instance (s : Daemon) (ls : List LoadedConf) : Decidable (s.Refreshed ls) :=
  decidable_of_iff ((ls.map (·.conf.name)).Nodup ∧ ∀ l ∈ ls, ∀ v ∈ s.vmList, s.nameOf v.conf = l.conf.name →
    v.StartsWith (s.confOf v.conf) l.conf) ⟨fun h => ⟨h.1, h.2⟩, fun h => ⟨h.nodup, h.starts⟩⟩

theorem confOf_allocConfs_old (hw : WF s)
    (h : allocConfs ls s = .ok (new, s')) (hc : (s.conf? c).isSome) : s'.confOf c = s.confOf c := by
  obtain ⟨e, he⟩ := Option.isSome_iff_exists.mp hc
  rw [Daemon.confOf, Daemon.confOf, he, allocConfs_old hw h he]

theorem confOf_allocConfs_new (hw : WF s)
    (h : allocConfs ls s = .ok (new, s')) : new.map s'.confOf = ls.map (·.conf) := by
  have hlen : new.length = ls.length := by
    rw [(allocConfs_spec ls h).1, List.length_range']
  calc new.map s'.confOf
      = (new.zip ls).map fun p => s'.confOf p.1 := by
        rw [← List.map_fst_zip (Nat.le_of_eq hlen), List.map_map, List.map_fst_zip (Nat.le_of_eq hlen)]
        rfl
    _ = (new.zip ls).map fun p => p.2.conf := by
        refine List.map_congr_left fun p hp => ?_
        rw [Daemon.confOf, allocConfs_new hw h hp]
        rfl
    _ = ls.map (·.conf) := by
        rw [← List.map_snd_zip (Nat.le_of_eq hlen.symm), List.map_map, List.map_snd_zip (Nat.le_of_eq hlen.symm)]
        rfl

/-- **A reload** of such a configuration. -/
theorem reloadVirtualMachines_current {load : Option (List LoadedConf)} (hw : WF s)
    (hok : ∀ ls ∈ load, s.Refreshed ls) (hs : s.AllCurrent)
    (hr : reloadVirtualMachines env load s = .ok (r, s')) : s'.AllCurrent := by
  obtain ⟨o, s1, h1, h⟩ := of_bind hr
  rcases loadConfigFile_spec h1 with ⟨rfl, -, rfl⟩ | ⟨ls, hls, rfl, ha⟩
  · cases h
    exact hs
  obtain ⟨hnd, hgo⟩ := hok ls hls
  have k : Kept env _ _ Daemon.AllCurrent := allCurrent_kept
  have side1 := allocConfs_confSide ls _ _ _ ha
  have hw1 := side1.wf hw
  obtain ⟨s2, ok, s3, hb, h3, h⟩ := reloadList_begins hw1 h
  have cur2 : s2.AllCurrent := k.clear hb.run (k.dry (Changes.change (k := .records) (s := s1) rfl) (k.load hw ha hs))
  have hconf2 : s2.confOf = s1.confOf := by
    rw [of_modify hb.run]
    rfl
  have hsome2 : ∀ c ∈ List.range' s.next ls.length, (s2.conf? c).isSome := fun c hc => by
    rw [of_modify hb.run]
    exact allocConfs_isSome ha hc
  have cur3 := k.reloadConfs hb.wf hb.cmd hsome2 h3 cur2
  cases ok with
  | false =>
    rw [if_neg (by decide)] at h
    rw [h]
    exact cur3
  | true =>
    rw [if_pos rfl] at h
    have htaken : s2.Taken [] s2 := by
      intro v hv
      have hv2 := hb.wf.vm?_of_mem hv
      refine .inl ⟨?_, hv2⟩
      rw [hb.entry] at hv2
      obtain ⟨w, -, rfl⟩ := Option.map_eq_some_iff.mp hv2
      rfl
    have hgo2 : ∀ c ∈ List.range' s.next ls.length, ∀ v, s2.vm? v.addr = some v → s2.nameOf v.conf = s2.nameOf c →
        v.StartsWith (s2.confOf v.conf) (s2.confOf c) := by
      intro c hc v hv hname
      rw [hb.entry] at hv
      obtain ⟨w, hv1, hwv⟩ := Option.map_eq_some_iff.mp hv
      have hmem : w ∈ s.vmList := side1.vms ▸ mem_of_vm? hv1
      have hvc : v.conf = w.conf := by rw [← hwv]
      have hvs : v.state = w.state := by rw [← hwv]
      obtain ⟨l, hl, hlc⟩ : ∃ l ∈ ls, l.conf = s1.confOf c :=
        List.mem_map.mp ((confOf_allocConfs_new hw ha) ▸ List.mem_map_of_mem hc)
      rw [Daemon.nameOf, Daemon.nameOf, hconf2, hvc, confOf_allocConfs_old hw ha (hw.vmConf w hmem), ← hlc] at hname
      rw [hconf2, hvc, confOf_allocConfs_old hw ha (hw.vmConf w hmem), ← hlc, VmEntry.StartsWith, hvs]
      exact hgo l hl w hmem hname
    have hnd2 : ((List.range' s.next ls.length).map s2.nameOf).Nodup := by
      have hmap := congrArg (List.map VmConf.name) (confOf_allocConfs_new hw ha)
      rw [List.map_map, List.map_map, (allocConfs_spec ls ha).1, ← hconf2] at hmap
      exact hmap ▸ hnd
    obtain ⟨done, htaken3⟩ := reloadConfs_taken hb.wf hb.cmd hsome2 hgo2 hnd2 (by simp) htaken h3
    obtain ⟨t3, cmd3, -⟩ := (reloadConfs_obeys _ hb.wf hb.cmd hsome2 h3).1 hb.wf hb.cmd
    refine finishReload_current t3.wf cmd3 ⟨cur3, fun v hv c hc => ?_⟩ h
    rcases htaken3 v hv with ⟨hn, -⟩ | ⟨x, -, hn, hvx⟩
    · rw [hn] at hc
      cases hc
    · rw [hn] at hc
      cases hc
      exact hvx

/-! ## Runs -/

theorem findMethod_go {backend : String} {m : VmMethod} {i : Nat} :
    ∀ {n : Nat} {l : List PluginData}, findMethod.go backend n l = some (m, i) →
      ∃ k pd, i = n + k ∧ l[k]? = some pd ∧ pd.method = some m
  | n, pd :: rest, h => by
    have skip : findMethod.go backend (n + 1) rest = some (m, i) →
        ∃ k pd', i = n + k ∧ (pd :: rest)[k]? = some pd' ∧ pd'.method = some m := by
      intro h
      obtain ⟨k, pd', hk, hget, hm⟩ := findMethod_go h
      exact ⟨k + 1, pd', by omega, hget, hm⟩
    unfold findMethod.go at h
    cases hpd : pd.method with
    | none =>
      simp only [hpd] at h
      exact skip h
    | some m' =>
      simp only [hpd] at h
      split at h
      · cases h
        exact ⟨0, pd, rfl, rfl, hpd⟩
      · exact skip h

/-- `VM_PLCONF` is the `pl_conf` of the element of `pl_data`, in the configuration of the VM, whose plugin provides
    `VM_METHOD`. -/
def Daemon.OwnsMethod (s : Daemon) (v : VmEntry) : Prop :=
  ∃ e i pd m, s.conf? v.conf = some e ∧ v.plConf = some (v.conf, i) ∧ e.plData[i]? = some pd ∧
    pd.method = some m ∧ v.method = some m

/-- `VM_PLCONF` has not been destroyed. -/
def Daemon.PlConfLive (s : Daemon) (v : VmEntry) : Prop :=
  ∃ c i e, v.plConf = some (c, i) ∧ s.conf? c = some e ∧ e.freed = false

theorem Daemon.Current.ownsMethod (h : s.Current v) : s.OwnsMethod v := by
  obtain ⟨m, i, hmeth, hm, hpl⟩ := h
  obtain ⟨e, he, hfind⟩ := Option.bind_eq_some_iff.mp hmeth
  obtain ⟨k, pd, hk, hget, hpd⟩ := findMethod_go hfind
  rw [Nat.zero_add] at hk
  subst hk
  exact ⟨e, i, pd, m, he, hpl, hget, hpd, hm⟩

/-- A configuration that is applied starts every VM that it has. -/
def Daemon.refreshes (s : Daemon) : Input → Prop
  | .event x io => ∀ ls ∈ io.load, ∀ e ∈ s.event? x, e.cb = .onSighup → s.Refreshed ls
  | _ => True

instance (s : Daemon) (i : Input) : Decidable (s.refreshes i) :=
  match i with
  | .event x io =>
    inferInstanceAs (Decidable (∀ ls ∈ io.load, ∀ e ∈ s.event? x, e.cb = .onSighup → s.Refreshed ls))
  | .procExit _ _ | .timeout _ _ | .keventError | .pluginEvent _ | .stopVirtualMachines => .isTrue trivial

theorem reach_allCurrent (h : Reach (bmd env) Daemon.refreshes s) : s.AllCurrent := by
  have k : Kept env _ _ Daemon.AllCurrent := allCurrent_kept
  refine Reach.invariant (I := Daemon.AllCurrent) ?_ ?_ h
  · rintro s ⟨load, off, hb⟩
    exact k.startDaemon ⟨List.nodup_nil, fun v hv => by cases hv⟩ hb
  · intro s i s' hr hs hok hst
    refine k.step (reach_wf hr).1 (fun x io e t r t' hi he hcb hvms hconfs hw hrun ht => ?_)
      (fun _ _ _ _ _ _ _ _ => trivial) hst hs
    subst hi
    refine reloadVirtualMachines_current hw (fun ls hls => ?_) ht hrun
    -- the callback reloads in the state in which the event was delivered, up to the log
    obtain ⟨hnd, hgo⟩ := hok ls hls e he hcb
    have hconf : t.confOf = s.confOf := by
      funext c
      rw [Daemon.confOf, Daemon.confOf, Daemon.conf?, Daemon.conf?, hconfs]
    refine ⟨hnd, fun l hl v hv hname => ?_⟩
    rw [Daemon.nameOf, hconf] at hname
    rw [hconf]
    exact hgo l hl v (hvms ▸ hv) hname

end Bmd
