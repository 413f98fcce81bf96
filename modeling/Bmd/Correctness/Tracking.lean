import Bmd.Correctness.Ownership

/-!
# `Correctness.Tracking` — the VMs are those of the configuration

The ledger over whole runs. A reload must not find a VM in `REMOVE`: the entry of that VM is not linked any more
and would be unlinked again; and if the new configuration has its name, the VM keeps its state, takes over the
new entry and frees it, linked as it is, when its process exits.
-/

namespace Bmd

open Lib Lib.Prog

variable {s s' t : Daemon} {a b c : Addr} {env : Env} {u : Unit} {d : Prop} {e : Event} {io : Io} {i : Input}

/-! ## Steps -/

theorem callback_turns (hw : WF s) (he : e ∈ s.eventList) (hdel : s.deliverable e = true) (hcb : e.cb ≠ .onSighup)
    (h : callback env e io (s.delivered e) = .ok (u, s')) :
    Relation.ReflTransGen Ledger.Turn s.ledger s'.ledger := by
  have hwf := hw.events e he
  have hwd := delivered_wf (e := e) hw
  have hld : (s.delivered e).ledger = s.ledger := rfl
  rw [← hld]
  cases hcb' : e.cb <;> simp only [Event.wf, hcb'] at hwf
  case onTimer =>
    obtain ⟨-, -, -, b, hd⟩ := hwf
    simp only [callback, hcb', hd] at h
    obtain ⟨v, k, k', -, -, -, g, hfires, -⟩ := onTimer_fires hw he hcb' hd (armed_of_deliverable hdel) h
    rw [g.within.ledger hfires.leaving]
  case onVmExit =>
    obtain ⟨-, -, -, b, hd⟩ := hwf
    simp only [callback, hcb', hd] at h
    rcases onVmExit_ledger hw he hd h with heq | hturn
    · rw [heq, hld]
    · exact .single hturn
  case onReadVmOutput =>
    obtain ⟨-, -, -, b, hd⟩ := hwf
    simp only [callback, hcb', hd] at h
    obtain ⟨v, -, hin, ev⟩ := onReadVmOutput_reads hw he hcb' hd h
    rw [hin.ledger (by rw [ev]; rfl)]
  case onRecvSockBuf =>
    obtain ⟨-, -, -, b, hd⟩ := hwf
    simp only [callback, hcb', hd] at h
    exact (serves_turns.onRecvSockBuf b io _ _ _ h hwd).2
  case onSendSockBuf =>
    obtain ⟨-, -, -, b, hd⟩ := hwf
    simp only [callback, hcb', hd] at h
    exact ((onSendSockBuf_apart b io _ _ _ h).turns hwd).2
  case onAcceptCmdSock =>
    simp only [callback, hcb'] at h
    exact ((onAcceptCmdSock_apart io _ _ _ h).turns hwd).2
  case onSigterm =>
    simp only [callback, hcb'] at h
    exact ((onSigterm_apart _ _ _ h).turns hwd).2
  case onSighup => exact (hcb hcb').elim
  case plugin =>
    simp only [callback, hcb'] at h
    rw [← (pure_ok.mp h).2]

theorem releaseEvent_ledger {x : Addr} (h : releaseEvent x s = .ok (u, s')) : s'.ledger = s.ledger := by
  have hs' := of_modify h
  split at hs' <;> rw [hs'] <;> rfl

theorem stopVms_ledger {l : List Addr} {n : Nat} (h : stopVms env l s = .ok (n, s')) : s'.ledger = s.ledger := by
  induction l generalizing s n with
  | nil =>
    cases h
    rfl
  | cons a rest ih =>
    replace h := get_bind h
    split at h
    · obtain ⟨_, s1, h1, h⟩ := of_bind h
      obtain ⟨k, s2, h2, h⟩ := of_bind h
      obtain ⟨rfl, rfl⟩ := pure_ok.mp h
      exact (ih h2).trans (requestStop_ledger h1)
    · exact ih h

/-- **What a step does to the ledger**: some turns, or a reload. -/
inductive Ledgered (env : Env) (s s' : Daemon) : Input → Prop where
  | turns {i : Input} (h : Relation.ReflTransGen Ledger.Turn s.ledger s'.ledger) : Ledgered env s s' i
  | reload {x : Addr} {io : Io} {e : Event} {t t' : Daemon} {r : Int} (hx : s.event? x = some e)
      (hcb : e.cb = .onSighup) (hw : WF t) (hl : t.ledger = s.ledger) (hv : t.vmList = s.vmList)
      (h : reloadVirtualMachines env io.load t = .ok (r, t')) (h' : s'.ledger = t'.ledger) :
      Ledgered env s s' (.event x io)

theorem dispatch_ledgered {x : Addr} (hw : WF s) (hx : s.event? x = some e) (hdel : s.deliverable e = true)
    (h : dispatch env e io s = .ok (u, s')) : Ledgered env s s' (.event x io) := by
  obtain ⟨_, s1, h1, h⟩ := of_bind h
  rw [deliver_ok h1] at h
  obtain ⟨_, t, h2, h⟩ := of_bind h
  have hrel : s'.ledger = t.ledger := by
    unfold whenever at h
    split at h
    · exact releaseEvent_ledger h
    · cases h
      rfl
  by_cases hcb : e.cb = .onSighup
  · simp only [callback, hcb] at h2
    obtain ⟨r, t1, h3, h2⟩ := of_bind h2
    cases h2
    exact .reload hx hcb (delivered_wf hw) rfl rfl h3 hrel
  · have ht := callback_turns hw (mem_of_event? hx) hdel hcb h2
    rw [← hrel] at ht
    exact .turns ht

/-- **Every step.** -/
theorem step_ledgered (hw : WF s) (h : step env s i = some s') : Ledgered env s s' i := by
  cases step_taken h with
  | procExit | keventError => exact .turns .refl
  | @event x io e u _ hx hwait hdel h =>
    -- counting the exit down changes the phase only
    cases dispatch_ledgered ((setPhase_confSide s (countDown e s.phase)).wf hw) hx hdel h with
    | turns ht => exact .turns ht
    | reload hx' hcb hwt hl hv hr h' => exact .reload hx' hcb hwt hl hv hr h'
  | timeout h =>
    refine .turns ?_
    rw [(closeTimeoutSockBuf_aside _ _ _ _ _ h hw.owned).ledger]
  | pluginEvent h => exact .turns ((registerPluginEvent_apart _ _ _ _ h).turns hw).2
  | stopVirtualMachines h =>
    replace h := get_bind h
    obtain ⟨_, s1, h1, h⟩ := of_bind h
    replace h := get_bind h
    obtain ⟨n, s3, h3, h⟩ := of_bind h
    have heq : s'.ledger = s.ledger := by
      rw [of_modify h]
      show s3.ledger = s.ledger
      rw [stopVms_ledger h3, (closeFd_aside _ _ _ _ h1 hw.owned).ledger]
    refine .turns ?_
    rw [heq]

/-- A reload finds no VM in `REMOVE`; with `d`, the names it loads are distinct. -/
def Io.reloadsWell (d : Prop) (s : Daemon) (io : Io) : Prop :=
  ∀ ls, io.load = some ls → (∀ v ∈ s.vmList, v.state ≠ .remove) ∧ (d → (ls.map (·.conf.name)).Nodup)

theorem step_sound (hm : ∀ n, env.malloc n = true) (hw : WF s) (hs : s.ledger.Sound d)
    (hok : ∀ x io, i = .event x io → ∀ e ∈ s.event? x, e.cb = .onSighup → io.reloadsWell d s)
    (h : step env s i = some s') : s'.ledger.Sound d := by
  cases step_ledgered hw h with
  | turns ht => exact star_keeps (fun _ _ hl ht => ht.sound hl) ht hs
  | reload hx hcb hwt hl hv hr h' =>
    rw [h']
    refine reloadVirtualMachines_sound hm hwt (hl ▸ hs) ?_ hr
    rw [hv]
    exact hok _ _ rfl _ hx hcb

/-! ## Ownership of configuration entries -/

/-- `LIST_REMOVE` was only applied to linked entries and `free_vm_conf_entry` to entries that were not freed; no
    entry that is linked, and none that a VM refers to, is freed. -/
structure Daemon.OwnsConfs (s : Daemon) : Prop where
  unlinked : ∀ c, .confRemove c ∉ s.faults
  freed : ∀ c, .confFree c ∉ s.faults
  linked : ∀ c ∈ s.vmConfList, ∃ e, s.conf? c = some e ∧ e.freed = false
  held : ∀ v ∈ s.vmList, ∃ e, s.conf? v.conf = some e ∧ e.freed = false

/-- No VM is in `REMOVE` when a configuration that could be loaded is applied. -/
def Daemon.settled (s : Daemon) : Input → Prop
  | .event x io => io.load.isSome → ∀ e ∈ s.event? x, e.cb = .onSighup → ∀ v ∈ s.vmList, v.state ≠ .remove
  | _ => True

instance (s : Daemon) (i : Input) : Decidable (s.settled i) :=
  match i with
  | .event x io => inferInstanceAs (Decidable (io.load.isSome → ∀ e ∈ s.event? x, e.cb = .onSighup →
      ∀ v ∈ s.vmList, v.state ≠ .remove))
  | .procExit _ _ | .timeout _ _ | .keventError | .pluginEvent _ | .stopVirtualMachines => .isTrue trivial

theorem entry_of_live (h : s.ledger.live c = true) : ∃ e, s.conf? c = some e ∧ e.freed = false := by
  obtain ⟨e, he⟩ := Option.isSome_iff_exists.mp (isSome_of_live h)
  refine ⟨e, he, ?_⟩
  simp only [Ledger.live, Daemon.ledger, Daemon.cell, he] at h
  simpa [ConfEntry.cell] using h

theorem Ledger.Sound.ownsConfs (hw : WF s) (h : s.ledger.Sound d) : s.OwnsConfs := by
  have hclean : ∀ f ∈ s.faults, f.ofConf ≠ true := List.any_eq_false.mp h.clean
  refine ⟨fun c hc => hclean _ hc rfl, fun c hc => hclean _ hc rfl, fun c hc => entry_of_live (h.live c hc), ?_⟩
  intro v hv
  exact entry_of_live (h.live_conf (stake_of_vm? (hw.vm?_of_mem hv)))

theorem reach_sound (hm : ∀ n, env.malloc n = true) (h : Reach (bmd env) Daemon.settled s) : s.ledger.Sound False := by
  refine Reach.invariant (I := fun s => s.ledger.Sound False) ?_ ?_ h
  · rintro s ⟨load, off, hb⟩
    exact (boot_ledger hb False.elim).1
  · intro s i s' hr hs hok hst
    refine step_sound hm (reach_wf hr).1 hs (fun x io hi e he hcb ls hls => ⟨?_, False.elim⟩) hst
    subst hi
    exact hok (by rw [hls]; rfl) e he hcb

/-- **Ownership.** Memory can be allocated, and no configuration is applied while a VM is in `REMOVE`. Then
    nothing is unlinked or freed twice, and what is linked or referred to by a VM is not freed. -/
theorem conf_entries_owned (hm : ∀ n, env.malloc n = true) (h : Reach (bmd env) Daemon.settled s) :
    s.OwnsConfs := (reach_sound hm h).ownsConfs (reach_wf h).1

/-- A VM that is down is removed from the configuration, and added again to be booted. -/
theorem conf_entries_owned_again : ∃ s, Reach (bmd .ideal) Daemon.settled s ∧ (∃ v ∈ s.vmList, v.state = .run) ∧
    s.OwnsConfs := by
  obtain ⟨s, hr, hrun⟩ : ∃ s, Reach (bmd .ideal) Daemon.settled s ∧ ∃ v ∈ s.vmList, v.state = .run :=
    exists_reach [(VmConf.section "a" "csm" .no).load]
      [.event 4 { load := some [] }, .event 4 { load := some [csmVm] }] (by decide +kernel)
  exact ⟨s, hr, hrun, conf_entries_owned Env.ideal_reliable.malloc hr⟩

/-- A second reload finds a VM that the first one removed and whose process still runs: its entry is unlinked
    again. -/
theorem conf_entry_unlinked_twice : ∃ s, Reach (bmd .ideal) anyStep s ∧
    ∃ e ∈ s.confs, e.addr ∉ s.vmConfList ∧ .confRemove e.addr ∈ s.faults :=
  exists_reach [csmVm]
    [.event 4 { load := some [] }, .event 4 { load := some [] }] (by decide +kernel)

/-! ## Tracking the configuration -/

/-- The name that a configuration entry gives its VM. -/
def Daemon.nameOf (s : Daemon) (c : Addr) : String := (s.confOf c).name

/-- Each name of the last configuration applied has one VM, which is not leaving and has the one entry of
    `vm_conf_list` for that name; all other VMs are leaving. -/
structure Daemon.Tracks (s : Daemon) : Prop where
  managed : ∀ n ∈ s.applied, ∃ v, s.vmList.filter (s.nameOf ·.conf == n) = [v] ∧
    s.vmConfList.filter (s.nameOf · == n) = [v.conf] ∧ v.state ≠ .remove
  leaving : ∀ v ∈ s.vmList, s.nameOf v.conf ∉ s.applied → v.state = .remove

/-- The configuration that is applied has distinct names. -/
def Input.namesApart : Input → Prop
  | .event _ io => ∀ ls ∈ io.load, (ls.map (·.conf.name)).Nodup
  | _ => True

instance (i : Input) : Decidable i.namesApart :=
  match i with
  | .event _ io => inferInstanceAs (Decidable (∀ ls ∈ io.load, (ls.map (·.conf.name)).Nodup))
  | .procExit _ _ | .timeout _ _ | .keventError | .pluginEvent _ | .stopVirtualMachines => .isTrue trivial

/-- The steps of runs that track the configuration. -/
def Daemon.tracked (s : Daemon) (i : Input) : Prop := i.namesApart ∧ s.settled i

instance (s : Daemon) (i : Input) : Decidable (s.tracked i) := inferInstanceAs (Decidable (_ ∧ _))

namespace Ledger.Sound

variable {v w : VmEntry} {n : String}

theorem name_held (h : s.ledger.Sound d) (hv : s.vm? a = some v) : s.ledger.name v.conf = some (s.nameOf v.conf) :=
  ledger_name (isSome_of_live (h.live_conf (stake_of_vm? hv)))

/-- A linked entry is held by a VM that is not leaving. -/
theorem holder (h : s.ledger.Sound True) (hc : c ∈ s.vmConfList) : ∃ v ∈ s.vmList, v.conf = c ∧ v.state ≠ .remove := by
  obtain ⟨a, k, hk, rfl⟩ := h.cover trivial c hc
  obtain ⟨v, hv, rfl⟩ := vm?_of_stake hk
  refine ⟨v, mem_of_vm? hv, rfl, fun hrem => ?_⟩
  exact (h.leaves a _ hk (by rw [hrem]; rfl)).1 hc

/-- VMs with one name are one. -/
theorem eq_of_name (hw : WF s) (h : s.ledger.Sound True) (hv : v ∈ s.vmList) (hv' : w ∈ s.vmList)
    (hn : s.nameOf w.conf = s.nameOf v.conf) : w = v := by
  have hfind := hw.vm?_of_mem hv
  have hfind' := hw.vm?_of_mem hv'
  have haddr : w.addr = v.addr := by
    refine h.names trivial _ _ _ _ (stake_of_vm? hfind') (stake_of_vm? hfind) ?_
    show s.ledger.name w.conf = s.ledger.name v.conf
    rw [h.name_held hfind', h.name_held hfind, hn]
  rw [haddr, hfind] at hfind'
  exact (Option.some.inj hfind').symm

theorem tracks (hw : WF s) (h : s.ledger.Sound True) : s.Tracks := by
  constructor
  · intro n hn
    obtain ⟨c, hc, hcn⟩ := (h.applied trivial n).mp hn
    obtain ⟨v, hv, rfl, hstay⟩ := h.holder hc
    have hname : s.nameOf v.conf = n := by
      rw [h.name_held (hw.vm?_of_mem hv)] at hcn
      exact Option.some.inj hcn
    refine ⟨v, Keyed.filter_eq_singleton (.of_map _ hw.vmNodup) hv (beq_iff_eq.mpr hname) ?_,
      Keyed.filter_eq_singleton h.nodup hc (beq_iff_eq.mpr hname) ?_, hstay⟩
    · intro w hv' hw'
      exact h.eq_of_name hw hv hv' ((beq_iff_eq.mp hw').trans hname.symm)
    · -- the entry is that of a VM with the same name
      intro c hc' hcn'
      obtain ⟨w, hv', rfl, -⟩ := h.holder hc'
      rw [h.eq_of_name hw hv hv' ((beq_iff_eq.mp hcn').trans hname.symm)]
  · intro v hv hn
    by_contra hstay
    have hfind := hw.vm?_of_mem hv
    have hlinked := h.stays _ _ (stake_of_vm? hfind) (beq_eq_false_iff_ne.mpr hstay)
    exact hn ((h.applied trivial _).mpr ⟨_, hlinked, h.name_held hfind⟩)

end Ledger.Sound

/-- **Tracking.** Memory can be allocated, the daemon was started, all configurations have distinct names, and none
    is applied while a VM is in `REMOVE`. Then the VMs that are not in `REMOVE` are those of the configuration. -/
theorem reload_tracks {s₀ : Daemon} {load : List LoadedConf} {off : Int} (hm : ∀ n, env.malloc n = true)
    (hn : (load.map (·.conf.name)).Nodup) (hb : boot env load off = some s₀) (hp : s₀.phase = .loop)
    (h : Steps (bmd env) Daemon.tracked s₀ s) : s.Tracks := by
  have hr₀ : Reach (bmd env) Daemon.tracked s₀ := .init ⟨load, off, hb⟩
  have hs : s.ledger.Sound True := by
    refine h.invariant (I := fun s => s.ledger.Sound True) (boot_ledger hb fun _ => ⟨hn, hp⟩).1 ?_
    intro t i t' ht hst hok hstep
    refine step_sound hm (reach_wf (hr₀.steps ht)).1 hst (fun x io hi e he hcb ls hls => ?_) hstep
    subst hi
    exact ⟨hok.2 (by rw [hls]; rfl) e he hcb, fun _ => hok.1 ls hls⟩
  exact hs.tracks (reach_wf (hr₀.steps h)).1

/-- A VM that is down is removed from the configuration, and added again to be booted. -/
theorem reload_tracks_again : ∃ s₀ s, boot .ideal [(VmConf.section "a" "csm" .no).load] 0 = some s₀ ∧
    Steps (bmd .ideal) Daemon.tracked s₀ s ∧ s.applied = ["a"] ∧ s.Tracks := by
  obtain ⟨s₀, s, hb, hp, hs, ha⟩ : ∃ s₀ s, boot .ideal [(VmConf.section "a" "csm" .no).load] 0 = some s₀ ∧
      s₀.phase = .loop ∧ Steps (bmd .ideal) Daemon.tracked s₀ s ∧ s.applied = ["a"] :=
    exists_boot_steps [(VmConf.section "a" "csm" .no).load]
      [.event 4 { load := some [] }, .event 4 { load := some [csmVm] }] (by decide +kernel)
  exact ⟨s₀, s, hb, hs, ha, reload_tracks Env.ideal_reliable.malloc (by decide +kernel) hb hp hs⟩

/-- A VM is removed from the configuration and added again while its process still runs: when the process exits,
    nothing manages the VM any more. -/
theorem readded_vm_lost : ∃ s, Reach (bmd .ideal) anyStep s ∧ s.applied = ["a"] ∧ s.vmList = [] :=
  exists_reach [csmVm]
    [.event 4 { load := some [] }, .event 4 { load := some [csmVm] },
      .procExit 1 0, .event 7 {}] (by decide +kernel)

end Bmd
