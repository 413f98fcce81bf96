import Bmd.Correctness.Legible
import Bmd.Correctness.VmConf

/-!
# `Correctness.Unchanged` — a reload and the VMs whose section did not change

The first pass finds such a VM by its name and compares its configuration with the new one. The two differ only if
the `install` flag was changed since the configuration was loaded, by the install command or by the exit of an
installation. All that the passes do for other VMs leaves this one alone.
-/

namespace Bmd

open Lib Lib.Prog

/-- A signal to the process of a VM, or a request to its device. -/
def Action.isSignal : Action → Bool
  | .kill .. | .suspend .. => true
  | _ => false

/-- State, process, timers and taps of the VM at `a` are as they were, and it was sent no signal. -/
structure Daemon.Undisturbed (a : Addr) (s s' : Daemon) : Prop where
  state : (s'.view a).state = (s.view a).state
  pid : (s'.view a).pid = (s.view a).pid
  procs : (s'.view a).procs = (s.view a).procs
  timers : (s'.view a).timers = (s.view a).timers
  signals : (s'.view a).log.filter (·.isSignal) = (s.view a).log.filter (·.isSignal)
  taps : (s'.vm? a).map (·.taps) = (s.vm? a).map (·.taps)

/-- The flag `install` is not what was loaded, and the reload reboots a VM in state `st` for that. -/
def ConfEntry.misjudged (e : ConfEntry) (st : State) : Prop :=
  e.loaded.conf.boot ≠ .no ∧ e.loaded.conf.rebootOnChange = true ∧ e.conf.install ≠ e.loaded.conf.install ∧
    st ≠ .remove ∧ st ≠ .restart

instance (e : ConfEntry) (st : State) : Decidable (e.misjudged st) :=
  inferInstanceAs (Decidable (_ ∧ _ ∧ _ ∧ _ ∧ _))

variable {s s' t t' : Daemon} {a b c c₀ : Addr} {env : Env} {v x : VmEntry} {e : ConfEntry} {u : Unit} {w : View}
  {l : List Addr} {r d : Bool}

/-! ## Taps -/

/-- The taps of all VMs are as they were. -/
def TapsKept (s s' : Daemon) : Prop := ∀ a, (s'.vm? a).map (·.taps) = (s.vm? a).map (·.taps)

instance : IsPreorder Daemon TapsKept where
  refl _ := fun _ => rfl
  trans _ _ _ h h' := fun a => (h' a).trans (h a)

theorem TapsKept.of_vmList (h : s'.vmList = s.vmList) : TapsKept s s' := fun a => by
  simp only [Daemon.vm?, h]

theorem modVm_taps {f : VmEntry → VmEntry} (hf : ∀ v, (f v).addr = v.addr ∧ (f v).taps = v.taps) :
    Keeps TapsKept (modVm b f) := .modify fun s a => by
  by_cases hab : a = b
  · subst hab
    rw [vm?_modVm fun v => (hf v).1, Option.map_map]
    congr 1
    funext v
    exact (hf v).2
  · rw [(modVm_near fun v => (hf v).1).vm a hab]

theorem vmClose_taps (fd : Fd) : Keeps TapsKept (vmClose fd) :=
  .ite (fun _ => .modify fun _ => .of_vmList rfl) fun _ => .pure _

theorem openErrLogfile_taps (conf : VmConf) : Keeps TapsKept (openErrLogfile env conf) := by
  intro s r s' h
  refine .of_vmList ?_
  obtain ⟨ok, s1, h1, h⟩ := of_bind h
  cases h1
  split at h
  · cases h
    rfl
  · split at h <;> cases h <;> rfl

theorem reopenLog_taps (v : VmEntry) (old new : VmConf) : Keeps TapsKept (reopenLog env v old new) :=
  .ite (fun _ => .bind (vmClose_taps _) fun _ => .bind (modVm_taps fun _ => ⟨rfl, rfl⟩) fun _ =>
    .bind (openErrLogfile_taps _) fun _ => modVm_taps fun _ => ⟨rfl, rfl⟩) fun _ => .pure _

/-! ## The configuration of another VM -/

/-- The name of a VM leads to it. -/
theorem lookup_of_legible (hw : WF s) (hL : s.ledger.Legible) (hv : s.vm? a = some x) :
    s.lookupVmByName (s.confOf x.conf).name = some x := by
  have hmem := mem_of_vm? hv
  obtain ⟨y, hy⟩ : ∃ y, s.lookupVmByName (s.confOf x.conf).name = some y := by
    refine Option.isSome_iff_exists.mp (List.find?_isSome.mpr ⟨x, hmem, ?_⟩)
    exact beq_self_eq_true _
  obtain ⟨hyv, hyn⟩ := lookupVmByName_vm? hw hy
  have hxv := hw.vm?_of_mem hmem
  have haddr : y.addr = x.addr := by
    refine hL.apart _ _ _ _ (stake_of_vm? hyv) (stake_of_vm? hxv) ?_
    show s.ledger.name y.conf = s.ledger.name x.conf
    rw [ledger_name (hw.vmConf y (mem_of_vm? hyv)), ledger_name (hw.vmConf x hmem), hyn]
  rw [haddr, hxv] at hyv
  rw [hy, ← hyv]

theorem reloadConf_other (hw : WF t) (hcmd : ∀ a, (t.view a).Recalled) (hc : (t.conf? c).isSome)
    (hv : t.vm? a = some x) (hne : (t.confOf c).name ≠ (t.confOf x.conf).name)
    (h : reloadConf env c t = .ok (r, t')) : t'.vm? a = t.vm? a ∧ t'.view a = t.view a := by
  cases reloadConf_spec hw hcmd hc h with
  | failed hcalm _ hvm => exact ⟨by simp only [Daemon.vm?, hvm], (hcalm hw).2 a⟩
  | created _ hcr =>
    have hlt := hw.lt_next hv
    exact ⟨hcr.near.vm a (Nat.ne_of_lt hlt), hcr.near.view a (Nat.ne_of_lt hlt)⟩
  | @found y hy hr =>
    have hya : a ≠ y.addr := by
      rintro rfl
      obtain ⟨hyv, hyn⟩ := lookupVmByName_vm? hw hy
      rw [hv] at hyv
      cases hyv
      exact hne hyn.symm
    exact ⟨hr.near.vm a hya, hr.near.view a hya⟩

/-! ## The configuration of the VM itself -/

/-- The VM was rebooted: its state or its timers changed. -/
def View.Rebooted (w w' : View) : Prop := w'.state ≠ w.state ∨ w'.timers ≠ w.timers

/-- What `rebootVm` does to the VM. -/
theorem rebootVm_view {conf : VmConf} (hst : (t.view x.addr).state = some x.state)
    (h : rebootVm env x conf t = .ok (u, t')) :
    (x.state = .remove ∨ x.state = .restart → t' = t) ∧
      (env.Reliable → x.state ≠ .remove → x.state ≠ .restart → (t.view x.addr).Rebooted (t'.view x.addr)) := by
  have hsome := isSome_of_view hst
  cases hx : x.state <;> simp only [rebootVm, hx] at h hst
  case terminate =>
    refine ⟨by simp, fun hrel _ _ => ?_⟩
    obtain ⟨_, s1, h1, h⟩ := of_bind h
    cases h
    obtain ⟨-, ok, ev, -, hok⟩ := setTimer_spec h1
    rw [hok hrel (by omega)] at ev
    right
    rw [ev]
    exact fun heq => List.cons_ne_self _ _ heq
  case stop =>
    refine ⟨by simp, fun _ _ _ => .inl ?_⟩
    rw [(setState_spec hsome h).2, hst]
    exact fun h => by cases h
  case remove =>
    cases h
    exact ⟨fun _ => rfl, fun _ h => (h rfl).elim⟩
  case restart =>
    cases h
    exact ⟨fun _ => rfl, fun _ _ h => (h rfl).elim⟩
  all_goals
    refine ⟨by simp, fun _ _ _ => .inl ?_⟩
    obtain ⟨_, s1, h1, h⟩ := of_bind h
    obtain ⟨g1, -⟩ := requestStop_spec h1
    rw [(setState_spec (g1.isSome hsome) h).2, hst]
    exact fun h => by cases h

/-- The new entry of a VM whose section did not change differs from the old one in `install` only. -/
theorem confChanged_reloaded (hl : e.loaded.Wf) (hf : e.cell.Faithful) (hold : t.conf? b = some e)
    (hnew : t.conf? c₀ = some (mkConfEntry c₀ e.loaded)) :
    t.confChanged c₀ b = true ↔ e.conf.install ≠ e.loaded.conf.install := by
  have hconf : e.conf = { e.loaded.conf with install := e.conf.install } := by
    have h := congrArg (fun x : VmConf => { x with install := e.conf.install }) hf.1
    exact h
  simp only [Daemon.confChanged, hold, hnew, bne_iff_ne]
  rw [compareVmConfEntry_reloaded hl hconf hf.2]
  exact ne_comm

theorem reloadOldVm_view (hw : WF t) (hcmd : ∀ a, (t.view a).Recalled) (hv : t.vm? x.addr = some x)
    (hl : e.loaded.Wf) (hf : e.cell.Faithful) (hold : t.conf? x.conf = some e)
    (hnew : t.conf? c₀ = some (mkConfEntry c₀ e.loaded)) (h : reloadOldVm env x c₀ e.loaded.conf t = .ok (u, t')) :
    (¬e.misjudged x.state → t'.view x.addr = t.view x.addr ∧ TapsKept t t') ∧
      (env.Reliable → e.misjudged x.state → (t.view x.addr).Rebooted (t'.view x.addr)) := by
  replace h := get_bind h
  have hboot : e.loaded.conf.boot = (t.confOf x.conf).boot := by
    rw [Daemon.confOf, hold]
    exact (congrArg VmConf.boot hf.1).symm
  obtain ⟨_, s1, h1, h⟩ := of_bind h
  have q1 := preserved (R := Silent x.addr) h1
  have taps1 := reopenLog_taps _ _ _ _ _ _ h1
  have r1 : Reloads env x.addr c₀ t s1 := .of_silent q1 (by rw [hv]; rfl) hw hcmd
  obtain ⟨_, s2, h2, h⟩ := of_bind h
  have e2 : s2.view x.addr = t.view x.addr := by
    rw [of_modify h2, ← q1.view]
    refine (modVm_calm (f := ({ · with newConf := some c₀ })) (fun _ => ⟨rfl, rfl, rfl, rfl⟩) (fun _ => .inl rfl)
      (fun _ c hc => .inr ?_) (r1.obeys hw hcmd).1.wf).2 x.addr
    cases hc
    rw [conf?_isSome_of_core (core_of_rest q1.grow.rest), hnew]
    rfl
  have taps2 : TapsKept t s2 := trans_of TapsKept taps1
    (modVm_taps (f := ({ · with newConf := some c₀ })) (fun _ => ⟨rfl, rfl⟩) _ _ _ h2)
  have hst2 : (s2.view x.addr).state = some x.state := by rw [e2, view_state hv]
  split at h
  · next hcond =>
    rw [confChanged_reloaded hl hf hold hnew] at hcond
    obtain ⟨hsame, hreb⟩ := rebootVm_view hst2 h
    rw [e2] at hreb
    refine ⟨fun hm => ?_, fun hrel hm => hreb hrel hm.2.2.2.1 hm.2.2.2.2⟩
    have hst : x.state = .remove ∨ x.state = .restart := by
      by_contra hst
      obtain ⟨h1, h2⟩ := not_or.mp hst
      exact hm ⟨hcond.1, hcond.2.1, hcond.2.2, h1, h2⟩
    rw [hsame hst]
    exact ⟨e2, taps2⟩
  · next hcond =>
    rw [confChanged_reloaded hl hf hold hnew] at hcond
    cases h
    exact ⟨fun _ => ⟨e2, taps2⟩, fun _ hm => (hcond ⟨hm.1, hm.2.1, hm.2.2.1⟩).elim⟩

/-! ## The first pass -/

/-- A reload is in its first pass; `c₀` is the new entry of the VM `v` whose entry is `e`. -/
structure Passing (v : VmEntry) (e : ConfEntry) (c₀ : Addr) (t : Daemon) : Prop where
  wf : WF t
  cmd : ∀ a, (t.view a).Recalled
  agreed : t.ledger.Agreed
  old : t.conf? v.conf = some e
  new : t.conf? c₀ = some (mkConfEntry c₀ e.loaded)

/-- The VM waits for its new configuration, or it has it: `w` is how it was found. -/
inductive Stage (env : Env) (v : VmEntry) (e : ConfEntry) (c₀ : Addr) (w : View) (t : Daemon) : Bool → Prop where
  | before (hv : t.vm? v.addr = some { v with newConf := none }) (hview : t.view v.addr = w) : Stage env v e c₀ w t false
  | after {x : VmEntry} (hv : t.vm? v.addr = some x) (hn : x.newConf = some c₀) (hx : x.conf = v.conf ∨ x.conf = c₀)
      (hcalm : ¬e.misjudged v.state → t.view v.addr = w ∧ x.taps = v.taps)
      (hact : env.Reliable → e.misjudged v.state → w.Rebooted (t.view v.addr)) : Stage env v e c₀ w t true

theorem Stage.frame (h : Stage env v e c₀ w t d) (hvm : t'.vm? v.addr = t.vm? v.addr)
    (hview : t'.view v.addr = t.view v.addr) : Stage env v e c₀ w t' d := by
  cases h with
  | before hv hw => exact .before (hvm.trans hv) (hview.trans hw)
  | after hv hn hx hcalm hact =>
    rw [← hview] at hcalm hact
    exact .after (hvm.trans hv) hn hx hcalm hact

theorem Passing.faithful (P : Passing v e c₀ t) : e.cell.Faithful := by
  refine P.agreed.faithful v.conf _ ?_
  show (t.conf? v.conf).map ConfEntry.cell = _
  rw [P.old]
  rfl

theorem Passing.name (P : Passing v e c₀ t) (hx : x.conf = v.conf ∨ x.conf = c₀) :
    (t.confOf x.conf).name = e.loaded.conf.name := by
  rcases hx with hx | hx <;> rw [hx, Daemon.confOf]
  · rw [P.old]
    exact (congrArg VmConf.name P.faithful.1 :)
  · rw [P.new]
    rfl

theorem Passing.step (P : Passing v e c₀ t) (hc : (t.conf? c).isSome)
    (h : reloadConf env c t = .ok (r, t')) : Passing v e c₀ t' := by
  have hr := reloadConf_spec P.wf P.cmd hc h
  obtain ⟨t1, cmd1, -⟩ := hr.obeys P.wf P.cmd
  have hconfs : t'.confs = t.confs := (congrArg Daemon.confs hr.rest :)
  refine ⟨t1.wf, cmd1, (reloadConf_enter P.wf P.cmd hc h).agreed P.agreed (cell_isSome hc), ?_, ?_⟩
  · rw [Daemon.conf?, hconfs]
    exact P.old
  · rw [Daemon.conf?, hconfs]
    exact P.new

/-- The pass comes to the new configuration of the VM. -/
theorem reloadConf_own (hl : e.loaded.Wf) (P : Passing v e c₀ t) (hst : Stage env v e c₀ w t false)
    (h : reloadConf env c₀ t = .ok (r, t')) : Stage env v e c₀ w t' true := by
  cases hst with
  | before hv hview =>
    have hc : (t.conf? c₀).isSome := by
      rw [P.new]
      rfl
    have hname : (t.confOf c₀).name = (t.confOf v.conf).name :=
      (P.name (x := { v with conf := c₀ }) (.inr rfl)).trans (P.name (.inl rfl)).symm
    have hlook := lookup_of_legible P.wf P.agreed.toLegible hv
    replace h := get_bind h
    simp only [hname, hlook] at h
    obtain ⟨_, s1, h1, h⟩ := of_bind h
    cases h
    rw [show t.confOf c₀ = e.loaded.conf by rw [Daemon.confOf, P.new]; rfl] at h1
    obtain ⟨hr, x, hx, hnew⟩ := reloadOldVm_reloads P.wf P.cmd hc hv h1
    obtain ⟨hcalm, hact⟩ := reloadOldVm_view (x := { v with newConf := none }) P.wf P.cmd hv hl P.faithful
      P.old P.new h1
    obtain ⟨x', hx', hconf, -, -⟩ := hr.entry _ hv
    rw [hx] at hx'
    cases hx'
    refine .after hx hnew hconf (fun hm => ?_) (hview ▸ hact)
    obtain ⟨heq, htaps⟩ := hcalm hm
    refine ⟨heq.trans hview, ?_⟩
    have htaps := htaps v.addr
    rw [hx, hv] at htaps
    exact Option.some.inj htaps

theorem Stage.entry (h : Stage env v e c₀ w t d) : ∃ x, t.vm? v.addr = some x ∧ (x.conf = v.conf ∨ x.conf = c₀) := by
  cases h with
  | before hv => exact ⟨_, hv, .inl rfl⟩
  | after hv _ hx => exact ⟨_, hv, hx⟩

theorem reloadConf_stage (hl : e.loaded.Wf) (P : Passing v e c₀ t) (hc : (t.conf? c).isSome)
    (hn : (t.confOf c).name = e.loaded.conf.name → c = c₀) (hd : c = c₀ → d = false)
    (hst : Stage env v e c₀ w t d) (h : reloadConf env c t = .ok (r, t')) :
    Stage env v e c₀ w t' (d || decide (c = c₀)) := by
  by_cases heq : c = c₀
  · subst heq
    rw [hd rfl] at hst ⊢
    simpa using reloadConf_own hl P hst h
  · rw [decide_eq_false heq, Bool.or_false]
    obtain ⟨x, hv, hx⟩ := hst.entry
    have hother := reloadConf_other P.wf P.cmd hc hv (fun hname => heq (hn (hname.trans (P.name hx)))) h
    exact hst.frame hother.1 hother.2

/-- **The first pass**: it ends after the new configuration of the VM, unless it fails. -/
theorem reloadConfs_stage (hl : e.loaded.Wf) (hnd : l.Nodup) (P : Passing v e c₀ t)
    (hn : ∀ c ∈ l, (t.conf? c).isSome ∧ ((t.confOf c).name = e.loaded.conf.name → c = c₀))
    (hd : c₀ ∈ l → d = false) (hst : Stage env v e c₀ w t d) (h : reloadConfs env l t = .ok (r, t')) :
    ∃ d', Passing v e c₀ t' ∧ Stage env v e c₀ w t' d' ∧ (r = true → d' = (d || decide (c₀ ∈ l))) ∧
      (env.Reliable → r = true) := by
  induction l generalizing t d with
  | nil =>
    cases h
    exact ⟨d, P, hst, fun _ => by simp, fun _ => rfl⟩
  | cons c rest ih =>
    obtain ⟨ok, s1, h1, h⟩ := of_bind h
    obtain ⟨hc, hcn⟩ := hn c List.mem_cons_self
    obtain ⟨hnc, hnd⟩ := List.nodup_cons.mp hnd
    have hr := reloadConf_spec P.wf P.cmd hc h1
    have hst1 := reloadConf_stage hl P hc hcn (fun heq => hd (heq ▸ List.mem_cons_self)) hst h1
    have P1 := P.step hc h1
    have hconfs : s1.confs = t.confs := (congrArg Daemon.confs hr.rest :)
    cases ok with
    | false =>
      cases h
      refine ⟨_, P1, hst1, nofun, fun hrel => ?_⟩
      cases hr with
      | failed _ _ _ hm =>
        obtain ⟨n, hm⟩ := hm
        rw [hrel.malloc n] at hm
        cases hm
    | true =>
      have hn1 : ∀ c' ∈ rest, (s1.conf? c').isSome ∧ ((s1.confOf c').name = e.loaded.conf.name → c' = c₀) := by
        intro c' hc'
        rw [Daemon.confOf, Daemon.conf?, hconfs]
        exact hn c' (List.mem_cons_of_mem _ hc')
      have hd1 : c₀ ∈ rest → (d || decide (c = c₀)) = false := by
        intro hmem
        have hne : c ≠ c₀ := fun heq => hnc (heq ▸ hmem)
        rw [hd (List.mem_cons_of_mem _ hmem), decide_eq_false hne]
        rfl
      obtain ⟨d', P', hst', hd', hrel⟩ := ih hnd P1 hn1 hd1 hst1 h
      refine ⟨d', P', hst', fun hr => (hd' hr).trans ?_, hrel⟩
      by_cases heq : c = c₀
      · simp [heq]
      · simp [heq, Ne.symm heq]

/-! ## The second pass -/

theorem settleVm_near (hw : WF t) (hcmd : ∀ a, (t.view a).Recalled) (h : settleVm env b t = .ok (u, t')) :
    Near b t t' := by
  replace h := get_bind h
  cases hv : t.vm? b with
  | none =>
    simp only [hv] at h
    cases h
    exact .refl b t
  | some y =>
    have hy := addr_of_vm? hv
    simp only [hv] at h
    cases hn : y.newConf with
    | none =>
      simp only [hn] at h
      rw [← hy] at hv
      exact hy ▸ (dropVm_spec hw (hcmd _) hv h).near hw
    | some c =>
      simp only [hn] at h
      rw [of_modify h]
      exact modVm_near fun _ => rfl

theorem settleVms_other (hw : WF t) (hcmd : ∀ a, (t.view a).Recalled) (ha : a ∉ l)
    (h : settleVms env l t = .ok (u, t')) : t'.vm? a = t.vm? a ∧ t'.view a = t.view a := by
  induction l generalizing t with
  | nil =>
    cases h
    exact ⟨rfl, rfl⟩
  | cons b rest ih =>
    obtain ⟨hab, ha⟩ := not_or.mp fun hor => ha (List.mem_cons.mpr hor)
    obtain ⟨_, s1, h1, h⟩ := of_bind h
    obtain ⟨t1, cmd1, -⟩ := settleVm_obeys b h1 hw hcmd
    have near1 := settleVm_near hw hcmd h1
    obtain ⟨hvm, hview⟩ := ih t1.wf cmd1 ha h
    exact ⟨hvm.trans (near1.vm a hab), hview.trans (near1.view a hab)⟩

/-- A VM with a new configuration gets it, and nothing else happens to it. -/
theorem settleVms_own (hw : WF t) (hcmd : ∀ a, (t.view a).Recalled) (hnd : l.Nodup) (ha : a ∈ l)
    (hv : t.vm? a = some x) (hn : x.newConf = some c₀) (h : settleVms env l t = .ok (u, t')) :
    t'.view a = t.view a ∧ (t'.vm? a).map (·.taps) = some x.taps := by
  induction l generalizing t with
  | nil => cases ha
  | cons b rest ih =>
    obtain ⟨hnb, hnd⟩ := List.nodup_cons.mp hnd
    obtain ⟨_, s1, h1, hrest⟩ := of_bind h
    obtain ⟨t1, cmd1, -⟩ := settleVm_obeys b h1 hw hcmd
    by_cases hab : a = b
    · subst hab
      obtain ⟨hvm, hview⟩ := settleVms_other t1.wf cmd1 hnb hrest
      replace h1 := get_bind h1
      simp only [hv, hn] at h1
      rw [hvm, hview, modVm_lookup h1 (fun _ => rfl) hv]
      exact ⟨(adoptConf_calm hv hn h1 hw).2 a, rfl⟩
    · have near1 := settleVm_near hw hcmd h1
      rw [← near1.view a hab]
      exact ih t1.wf cmd1 hnd ((List.mem_cons.mp ha).resolve_left hab) ((near1.vm a hab).trans hv) hrest

theorem finishReload_own {new : List Addr} (hw : WF t) (hcmd : ∀ a, (t.view a).Recalled) (hv : t.vm? a = some x)
    (hn : x.newConf = some c₀) (h : finishReload env new t = .ok (u, t')) :
    t'.view a = t.view a ∧ (t'.vm? a).map (·.taps) = some x.taps := by
  replace h := get_bind h
  obtain ⟨_, s1, h1, h⟩ := of_bind h
  have hmem : a ∈ t.vmList.map (·.addr) := List.mem_map.mpr ⟨x, mem_of_vm? hv, addr_of_vm? hv⟩
  obtain ⟨hview, htaps⟩ := settleVms_own hw hcmd hw.vmNodup hmem hv hn h1
  replace h := get_bind h
  obtain ⟨_, s3, h3, h⟩ := of_bind h
  have k3 := freeConfs_confSide _ _ _ _ h3
  rw [of_modify h]
  refine ⟨(view_congr k3.vms k3.events k3.procs k3.log k3.forced k3.exits a).trans hview, ?_⟩
  rw [← htaps]
  simp only [Daemon.vm?, k3.vms]

/-! ## The reload -/

section Reload

variable {ls : List LoadedConf} {new : List Addr}

/-- The entries that were there are there. -/
theorem allocConfs_old (hw : WF s) (h : allocConfs ls s = .ok (new, s')) (he : s.conf? c = some e) :
    s'.conf? c = some e := by
  have hw' := (allocConfs_confSide ls _ _ _ h).wf hw
  obtain ⟨-, rfl⟩ := allocConfs_spec ls h
  have hmem : e ∈ s.confs := List.mem_of_find?_eq_some he
  rw [← Keyed.key_of_find? (k := ConfEntry.addr) he]
  exact hw'.conf?_of_mem (List.mem_append_right _ hmem)

/-- The entries that are new. -/
theorem allocConfs_new (hw : WF s) (h : allocConfs ls s = .ok (new, s')) {p : Addr × LoadedConf}
    (hp : p ∈ new.zip ls) : s'.conf? p.1 = some (mkConfEntry p.1 p.2) := by
  have hw' := (allocConfs_confSide ls _ _ _ h).wf hw
  obtain ⟨rfl, rfl⟩ := allocConfs_spec ls h
  refine hw'.conf?_of_mem (e := mkConfEntry p.1 p.2) (List.mem_append_left _ (List.mem_reverse.mpr ?_))
  exact List.mem_map.mpr ⟨p, hp, rfl⟩

/-- The new configurations have distinct names: one of them is that of the VM. -/
theorem allocConfs_own (hw : WF s) (hnd : (ls.map (·.conf.name)).Nodup) (h : allocConfs ls s = .ok (new, s'))
    {l : LoadedConf} (hl : l ∈ ls) : ∃ c₀ ∈ new, s'.conf? c₀ = some (mkConfEntry c₀ l) ∧
      ∀ c ∈ new, (s'.confOf c).name = l.conf.name → c = c₀ := by
  have hlen : new.length = ls.length := by
    rw [(allocConfs_spec ls h).1, List.length_range']
  obtain ⟨i, hi, rfl⟩ := List.getElem_of_mem hl
  have hpair : ∀ (j : Nat) (hj : j < ls.length),
      s'.conf? (new.get ⟨j, hlen ▸ hj⟩) = some (mkConfEntry (new.get ⟨j, hlen ▸ hj⟩) (ls.get ⟨j, hj⟩)) := by
    intro j hj
    refine allocConfs_new hw h (p := (new.get ⟨j, hlen ▸ hj⟩, ls.get ⟨j, hj⟩)) ?_
    refine List.mem_iff_getElem.mpr ⟨j, by simp [hlen, hj], ?_⟩
    simp
  refine ⟨new.get ⟨i, hlen ▸ hi⟩, List.get_mem .., hpair i hi, fun c hc hname => ?_⟩
  obtain ⟨j, hj, rfl⟩ := List.getElem_of_mem hc
  have hj' : j < ls.length := hlen ▸ hj
  have hname' : (ls.get ⟨j, hj'⟩).conf.name = (ls.get ⟨i, hi⟩).conf.name := by
    have hconf := hpair j hj'
    rw [List.get_eq_getElem] at hconf
    rw [Daemon.confOf, hconf] at hname
    exact hname
  have heq := List.inj_on_of_nodup_map hnd (List.get_mem ..) (List.get_mem ..) hname'
  have hij : j = i := (List.Nodup.getElem_inj_iff (.of_map _ hnd)).mp heq
  subst hij
  rfl

theorem Passing.begin (hw : WF s) (hL : s.ledger.Legible) (h : allocConfs ls s = .ok (new, t)) (hb : Begins t t')
    (he : s.conf? v.conf = some e) (hnew : t.conf? c₀ = some (mkConfEntry c₀ e.loaded)) : Passing v e c₀ t' := by
  have hconfs : t'.confs = t.confs := (congrArg Daemon.confs hb.rest :)
  refine ⟨hb.wf, hb.cmd, ?_, ?_, ?_⟩
  · rw [hb.ledger]
    exact (hL.loads ((allocConfs_spec ls h).1 ▸ allocConfs_ledger hw h)).cleared
  · rw [Daemon.conf?, hconfs]
    exact allocConfs_old hw h he
  · rw [Daemon.conf?, hconfs]
    exact hnew

/-- **A reload**, as the VM sees it. -/
theorem reload_view {r : Int} (hw : WF s) (hL : s.ledger.Legible) (hv : s.vm? v.addr = some v)
    (he : s.conf? v.conf = some e) (hl : e.loaded.Wf) (hmem : e.loaded ∈ ls) (hnd : (ls.map (·.conf.name)).Nodup)
    (h : reloadVirtualMachines env (some ls) s = .ok (r, s')) :
    (¬e.misjudged v.state → s'.view v.addr = (s.view v.addr).note .reload ∧
      (s'.vm? v.addr).map (·.taps) = some v.taps) ∧
    (env.Reliable → e.misjudged v.state → ((s.view v.addr).note .reload).Rebooted (s'.view v.addr)) := by
  obtain ⟨o, s1, h1, h⟩ := of_bind h
  rcases loadConfigFile_spec h1 with ⟨-, hno, -⟩ | ⟨_, hls, rfl, ha⟩
  · cases hno
  cases hls
  have k1 := allocConfs_confSide ls _ _ _ ha
  obtain ⟨c₀, hc₀, hnew, huniq⟩ := allocConfs_own hw hnd ha hmem
  obtain ⟨s2, ok, s3, hb, h3, h⟩ := reloadList_begins (k1.wf hw) h
  have P2 := Passing.begin hw hL ha hb he hnew
  have hst2 : Stage env v e c₀ ((s.view v.addr).note .reload) s2 false := by
    refine .before ?_ ?_
    · rw [hb.entry, Daemon.vm?, k1.vms]
      exact congrArg (Option.map ({ · with newConf := none })) hv
    · rw [hb.view, view_congr k1.vms k1.events k1.procs k1.log k1.forced k1.exits]
  have hconfs : s2.confs = s1.confs := (congrArg Daemon.confs hb.rest :)
  have hn2 : ∀ c ∈ List.range' s.next ls.length, (s2.conf? c).isSome ∧
      ((s2.confOf c).name = e.loaded.conf.name → c = c₀) := by
    intro c hc
    rw [Daemon.confOf, Daemon.conf?, hconfs]
    exact ⟨allocConfs_isSome ha hc, huniq c hc⟩
  obtain ⟨d, P3, hst3, hd, hrel⟩ := reloadConfs_stage hl List.nodup_range' P2 hn2 (fun _ => rfl) hst2 h3
  cases ok with
  | false =>
    -- the pass stopped at a VM that could not be created
    rw [show s' = s3 from h]
    refine ⟨fun hm => ?_, fun hr => Bool.noConfusion (hrel hr)⟩
    cases hst3 with
    | before hv3 hview => exact ⟨hview, congrArg (Option.map (·.taps)) hv3⟩
    | after hv3 _ _ hcalm =>
      obtain ⟨hview, htaps⟩ := hcalm hm
      rw [hv3, ← htaps]
      exact ⟨hview, rfl⟩
  | true =>
    have hdone : d = true := by
      rw [hd rfl, decide_eq_true hc₀]
      rfl
    subst hdone
    cases hst3 with
    | after hv3 hn3 _ hcalm hact =>
      obtain ⟨hview, htaps⟩ := finishReload_own P3.wf P3.cmd hv3 hn3 h
      rw [hview, htaps]
      refine ⟨fun hm => ?_, hact⟩
      rw [(hcalm hm).2]
      exact ⟨(hcalm hm).1, rfl⟩

end Reload

/-- The section of some VM is loaded again as it was: what `Q` says of the VM, its entry and the state reached. -/
def Daemon.reloadsSame (env : Env) (s : Daemon) (Q : VmEntry → ConfEntry → Daemon → Bool) : Bool :=
  s.vmList.any fun v => (s.conf? v.conf).any fun e =>
    match reloadVirtualMachines env (some [e.loaded]) s with
    | .ok (_, s') => Q v e s'
    | .error _ => false

theorem exists_of_reloadsSame {Q : VmEntry → ConfEntry → Daemon → Bool} (h : s.reloadsSame env Q = true) :
    ∃ v ∈ s.vmList, ∃ e r s', s.conf? v.conf = some e ∧ reloadVirtualMachines env (some [e.loaded]) s = .ok (r, s') ∧
      Q v e s' = true := by
  obtain ⟨v, hv, h⟩ := List.any_eq_true.mp h
  obtain ⟨e, he, h⟩ := (Option.any_eq_true _ _).mp h
  split at h
  · next r s' hr => exact ⟨v, hv, e, r, s', he, hr, h⟩
  · cases h

/-- Plugins that have no data. -/
def LoadedConf.plain (l : LoadedConf) : Bool := l.plData.all fun p => p.plConf.names.isEmpty

theorem LoadedConf.wf_of_plain {l : LoadedConf} (h : l.plain = true) : l.Wf := by
  intro p hp
  have hnames := List.isEmpty_iff.mp (List.all_eq_true.mp h p hp)
  cases hconf : p.plConf with
  | nil =>
    rw [NvList.Wf]
    trivial
  | cons k x rest =>
    rw [hconf] at hnames
    cases hnames

/-- A VM powers off and is started again by the install command. -/
def reinstall (l : LoadedConf) : List Input := [.procExit 1 256, .event 7 {}] ++ clientSends 10 12 2 (some [l])

end Bmd
