import Bmd.Correctness.Dispatch

/-!
# `Correctness.Runs` — the runs of the daemon

The daemon as a transition system, and the simulation: along every run, the view of every VM goes from the empty
view through moves of `Life`, the lists stay consistent, and between two dispatches every timer and every
process event in `event_list` has its knote. Invariants of single VMs are proved on `Life` and carried over
to the daemon by `reach_life`.
-/

namespace Bmd

open Lib Lib.Prog

variable {s s' : Daemon} {a : Addr} {env : Env} {i : Input} {load : List LoadedConf} {off : Int} {pid : Pid}
  {status : Nat} {e : Event}

/-! ## Starting -/

theorem setPhase_confSide (s : Daemon) (p : Phase) : ConfSide s { s with phase := p } :=
  ⟨rfl, rfl, rfl, rfl, rfl, rfl, rfl, rfl, Nat.le_refl _, ⟨[], rfl, List.nodup_nil, by simp⟩, fun _ => .inl, fun _ => id⟩

theorem setCmdSock_confSide (s : Daemon) (fd : Fd) : ConfSide s { s with cmdSock := fd } :=
  ⟨rfl, rfl, rfl, rfl, rfl, rfl, rfl, rfl, Nat.le_refl _, ⟨[], rfl, List.nodup_nil, by simp⟩, fun _ => .inl, fun _ => id⟩

theorem registerSignals_apart {l : List (Kev × Callback × Data)}
    (hl : ∀ x ∈ l, x.1.filter = .signal ∧ x.1.flags = .add ∧ (x.2.1 = .onSigterm ∨ x.2.1 = .onSighup) ∧
      x.2.2 = .null) : Keeps Apart (registerEvents env l) := by
  intro s r s' h
  have hadds : Adds (fun e => e.data = .null ∧ e.wf ∧ e.armed = true) s s' := by
    refine registerEvents_adds (fun x hx addr => ?_) s r s' h
    obtain ⟨hf, hfl, hcb, hd⟩ := hl x hx
    refine ⟨hd, ?_, rfl⟩
    rcases hcb with hcb | hcb <;> simp only [Event.wf, mkEvent, hcb, true_and] <;> exact ⟨hf, hfl, hd⟩
  refine ⟨hadds.aside fun e he => ⟨?_, he.2⟩, hadds.sock fun e he a hd => ?_⟩
  · simp [Event.ofVm, he.1]
  · rw [he.1] at hd
    cases hd

/-- The loop of `start_virtual_machines`. -/
theorem startVms_obeys : ∀ (l : List Addr) {s s' : Daemon} {r : Int}, WF s → (∀ a, (s.view a).Commanded) →
    (∀ c ∈ l, (s.conf? c).isSome) → startVms env l s = .ok (r, s') → Obeys env Ordered s s'
  | [], s, s', r, _, _, _, h => by
    cases h
    exact refl_of (Obeys env Ordered) s
  | c :: rest, s, s', r, hw, hcmd, hl, h => by
    obtain ⟨o, s1, h1, h⟩ := of_bind h
    rcases createVmEntry_spec h1 with ⟨rfl, k1, -⟩ | ⟨rfl, m, j, rfl⟩
    · cases h
      exact k1.obeys
    · have c1 : Creates env Ordered c s (s.withVm c m j) := withVm_creates (hl c List.mem_cons_self)
      obtain ⟨t1, cmd1, -⟩ := c1.obeys hw hcmd
      replace h := getVmConf_bind h
      obtain ⟨_, s3, h3, h⟩ := of_bind h
      have hst : ((s.withVm c m j).view s.next).state = some .terminate := view_state vm?_withVm_self
      have o3 : Obeys env Ordered (s.withVm c m j) s3 :=
        (bootNewVm_works t1.wf (cmd1 _) hst h3).toActsOn.obeys (isSome_of_view hst)
      obtain ⟨t3, cmd3, -⟩ := o3 t1.wf cmd1
      have o4 := startVms_obeys rest t3.wf cmd3
        (fun c' hc' => t3.confs c' (t1.confs c' (hl c' (List.mem_cons_of_mem _ hc')))) h
      exact trans_of (Obeys env Ordered) c1.obeys (trans_of (Obeys env Ordered) o3 o4)

theorem startVirtualMachines_obeys : Keeps (Obeys env Ordered) (startVirtualMachines env) := by
  intro s r s' h
  obtain ⟨rc, s1, h1, h⟩ := of_bind h
  have k1 : Apart s s1 := registerSignals_apart (by simp) _ _ _ h1
  refine trans_of (Obeys env Ordered) k1.calm.obeys ?_
  split at h
  · cases h
    exact refl_of (Obeys env Ordered) _
  · replace h := get_bind h
    exact fun hw hcmd => startVms_obeys _ hw hcmd (fun c hc => hw.listed c hc) h hw hcmd

theorem enterLoop_obeys : Keeps (Obeys env Ordered) (enterLoop env) :=
  .bind startVirtualMachines_obeys fun _ => .ite (fun _ => .modify fun s => (setPhase_confSide s _).calm.obeys) fun _ =>
    .bind .get fun _ => .bind (keeps_obeys (waitForCmdSock_apart _)) fun _ =>
      .ite (fun _ => .modify fun s => (setPhase_confSide s _).calm.obeys) fun _ => .pure _

/-- The view before there is any VM. -/
def View.empty : View :=
  { state := none, pid := -1, serial := 0, timers := [], waits := [], procs := [], log := [], forced := [],
    exits := [] }

theorem exec_some {α : Type} {m : Prog α} (h : Prog.exec m s = some s') : ∃ x, m s = .ok (x, s') := by
  unfold Prog.exec at h
  split at h
  · next x t heq =>
    cases h
    exact ⟨x, heq⟩
  · cases h

theorem empty_wf (off : Int) : WF (Daemon.empty off) := by
  constructor <;> first | exact List.nodup_nil | (intro x hx; cases hx) | exact ⟨List.nodup_nil, by simp [Daemon.empty]⟩

/-- **The daemon when it enters the loop**: its sections are loaded and its command socket is open. -/
theorem boot_opened (h : boot env load off = some s) :
    ∃ l s1 s2 fd s3 s4 u, allocConfs load (Daemon.empty off) = .ok (l, s1) ∧
      s2 = { s1 with vmConfList := l, applied := load.map (·.conf.name) } ∧ WF s2 ∧ newFd env s2 = .ok (fd, s3) ∧
      s4 = { s3 with cmdSock := fd } ∧ enterLoop env s4 = .ok (u, s) ∧
      Tidy (Daemon.empty off) s4 ∧ (∀ a, (s4.view a).Commanded) ∧ ∀ a, LifeStar env False a .empty (s4.view a) := by
  obtain ⟨u, h⟩ := exec_some h
  obtain ⟨l, s1, h1, h⟩ := of_bind h
  obtain ⟨_, s2, h2, h⟩ := of_bind h
  obtain ⟨fd, s3, h3, h⟩ := of_bind h
  obtain ⟨_, s4, h4, h⟩ := of_bind h
  have hs2 := of_modify h2
  have hs4 := of_modify h4
  have k1 := allocConfs_confSide load _ _ _ h1
  have k2 : ConfSide s1 s2 := by
    rw [hs2]
    exact setConfList_confSide fun c hc => allocConfs_isSome h1 hc
  have k3 : Apart s2 s3 := preserved h3
  have k4 : ConfSide s3 s4 := by
    rw [hs4]
    exact setCmdSock_confSide s3 fd
  have o4 : Obeys env Ordered (Daemon.empty off) s4 :=
    trans_of (Obeys env Ordered) (trans_of ConfSide k1 k2).calm.obeys (trans_of (Obeys env Ordered) k3.calm.obeys k4.calm.obeys)
  exact ⟨l, s1, s2, fd, s3, s4, u, h1, hs2, k2.wf (k1.wf (empty_wf off)), h3, hs4, h,
    o4 (empty_wf off) fun a x hx => by cases hx⟩

/-- **The daemon when it first waits.** -/
theorem boot_spec (h : boot env load off = some s) : WF s ∧ s.Armed ∧ Socks s ∧ (∀ x, .eventFree x ∉ s.faults) ∧
      ∀ a, LifeStar env False a .empty (s.view a) := by
  obtain ⟨l, s1, s2, fd, s3, s4, u, -, -, -, -, -, h, t4, cmd4, l4⟩ := boot_opened h
  have hs : Socks (Daemon.empty off) := ⟨fun e he => (by cases he), fun a ha => (by cases ha)⟩
  obtain ⟨t, -, l⟩ := enterLoop_obeys _ _ _ h t4.wf cmd4
  have t := t4.trans t
  refine ⟨t.wf, t.armed (fun e he => by cases he), t.socks hs, fun x hx => ?_, fun a => (l4 a).trans (l a)⟩
  cases t.faults x hx

/-! ## The steps -/

theorem exitProc_sock : SockKept s (s.exitProc pid status) :=
  .of_eq rfl rfl (Nat.le_refl _)

theorem exitProc_stepped (hw : WF s) : Stepped env False s (s.exitProc pid status) := by
  have hpid : (s.exitProc pid status).procs.map (·.pid) = s.procs.map (·.pid) := by
    show (s.procs.map _).map _ = _
    rw [List.map_map]
    refine List.map_congr_left fun p _ => ?_
    by_cases hp : p.pid = pid <;> simp [hp]
  refine ⟨{ hw with
      owned := ⟨hw.owned.nodup, hw.owned.bound⟩, pids := by rw [hpid]; exact hw.pids, owners := fun p hp => ?_ },
    id, fun a => ?_⟩
  · obtain ⟨q, hq, rfl⟩ := List.mem_map.mp hp
    have := hw.owners q hq
    split <;> exact this
  · have hview : (s.exitProc pid status).view a = { s.view a with
        procs := (s.view a).procs.map fun p => if p.pid == pid then { p with status := some status } else p } := by
      have hp : (s.exitProc pid status).procs.filter (·.owner == a) = (s.procs.filter (·.owner == a)).map
          fun p => if p.pid == pid then { p with status := some status } else p := by
        show (s.procs.map _).filter _ = _
        rw [List.filter_map]
        congr 1
        refine List.filter_congr fun p _ => ?_
        by_cases hp : p.pid = pid <;> simp [hp]
      show ({ s.view a with procs := (s.exitProc pid status).procs.filter (·.owner == a) } : View) = _
      rw [hp]
      rfl
    rw [hview]
    exact .single (.childExit pid status)

/-- A VM whose entry is read as active exists. -/
theorem isSome_of_vmOf (h : (s.vmOf a).state ≠ .terminate) : ∃ v, s.vm? a = some v ∧ s.vmOf a = v := by
  cases hv : s.vm? a with
  | none =>
    refine (h ?_).elim
    simp only [Daemon.vmOf, hv]
    rfl
  | some v => exact ⟨v, rfl, vmOf_of_vm? hv⟩

/-- The first loop of `stop_virtual_machines` asks every active VM to shut down. -/
theorem stopVms_moves (l : List Addr) : Keeps (Moves env False) (stopVms env l) := by
  induction l with
  | nil => exact .pure _
  | cons a rest ih =>
    refine .get_bind fun s n s' h => ?_
    split at h
    · next hact =>
      obtain ⟨_, s1, h1, h⟩ := of_bind h
      obtain ⟨k, s2, h2, h⟩ := of_bind h
      cases h
      refine trans_of (Moves env False) (b := s1) (fun hw => ?_) (ih _ _ _ h2)
      obtain ⟨v, hv, hvof⟩ := isSome_of_vmOf (s := s) (a := a) (by rcases hact with h | h <;> rw [h] <;> decide)
      rw [hvof] at hact
      have hsome : (s.vm? a).isSome := by rw [hv]; rfl
      obtain ⟨g, ok, e, hok⟩ := requestStop_spec h1
      refine ActsOn.moves (.of_grow g ?_ (hw.view_serial hsome) (by rw [e]; rfl)) hsome hw
      rw [e]
      exact .terminating ⟨view_state hv, hact⟩ hok
    · exact ih _ _ _ h

theorem beginStop_moves : Keeps (Moves env False) (beginStop env) :=
  .bind .get fun _ => .bind (keeps_moves keeps) fun _ =>
    .bind .get fun _ => .bind (stopVms_moves _) fun _ => .modify fun s => (setPhase_confSide s _).calm.moves

/-- The event that an input delivers. -/
def Daemon.arrival (s : Daemon) : Input → Option Event
  | .event x _ => s.event? x
  | _ => none

/-- The step reaps a process of another VM than the one whose exit it handles. -/
def Daemon.steals (s : Daemon) (i : Input) : Prop := ∃ e ∈ s.arrival i, s.theft e

theorem mem_of_event? {x : Addr} (h : s.event? x = some e) : e ∈ s.eventList :=
  List.mem_of_find?_eq_some h

theorem mem_of_arrival (h : e ∈ s.arrival i) : e ∈ s.eventList := by
  cases i with
  | event x io => exact mem_of_event? h
  | _ => cases h

/-- How a step was taken. -/
inductive Taken (env : Env) (s : Daemon) : Input → Daemon → Prop where
  | procExit {pid : Pid} {status : Nat} : Taken env s (.procExit pid status) (s.exitProc pid status)
  | event {x : Addr} {io : Io} {e : Event} {u : Unit} {s' : Daemon} (hx : s.event? x = some e) (hwait : s.waiting = true)
      (hdel : s.deliverable e = true) (h : dispatch env e io { s with phase := countDown e s.phase } = .ok (u, s')) :
      Taken env s (.event x io) s'
  | timeout {start now : Int} {u : Unit} {s' : Daemon} (h : closeTimeoutSockBuf commandTimeoutSec now s = .ok (u, s')) :
      Taken env s (.timeout start now) s'
  | keventError : Taken env s .keventError { s with phase := if s.phase = .loop then .left else .failed }
  | pluginEvent {k : Kev} {r : Int} {s' : Daemon} (h : registerPluginEvent env k s = .ok (r, s')) :
      Taken env s (.pluginEvent k) s'
  | stopVirtualMachines {u : Unit} {s' : Daemon} (h : beginStop env s = .ok (u, s')) :
      Taken env s .stopVirtualMachines s'

theorem advance_taken (h : advance env s i = some s') : Taken env s i s' := by
  cases i with
  | pluginEvent k => exact .pluginEvent (exec_some h).choose_spec
  | event x io =>
    simp only [advance] at h
    split at h
    · cases h
    · next e hx =>
      split at h
      · next hc => exact .event hx (Bool.and_eq_true_iff.mp hc).1 (Bool.and_eq_true_iff.mp hc).2 (exec_some h).choose_spec
      · cases h
  | timeout start now =>
    simp only [advance] at h
    split at h
    · split at h
      · exact .timeout (exec_some h).choose_spec
      · cases h
    · cases h
  | stopVirtualMachines =>
    simp only [advance] at h
    split at h
    · exact .stopVirtualMachines (exec_some h).choose_spec
    · cases h
  | _ =>
    simp only [advance] at h
    split at h <;> cases h
    constructor

theorem advance_of_step (h : step env s i = some s') : s.spoilt = false ∧ advance env s i = some s' := by
  unfold step at h
  split at h
  · cases h
  · next hs => exact ⟨by simpa using hs, h⟩

theorem step_taken (h : step env s i = some s') : Taken env s i s' := advance_taken (advance_of_step h).2

/-- **Every step** of the daemon moves every VM along `Life`. -/
theorem step_stepped (hw : WF s) (h : step env s i = some s') : Stepped env (s.steals i) s s' := by
  have hfalse : ∀ {t : Daemon}, Stepped env False s t → Stepped env (s.steals i) s t := fun h =>
    ⟨h.wf, h.armed, fun a => (h.life a).mono False.elim⟩
  cases step_taken h with
  | procExit => exact hfalse (exitProc_stepped hw)
  | @event x io e u _ hx hwait hdel h =>
    obtain ⟨st, -⟩ := dispatch_stepped ((setPhase_confSide s (countDown e s.phase)).wf hw) (mem_of_event? hx) hdel h
    exact ⟨st.wf, st.armed, fun a => (st.life a).mono fun ht => ⟨e, hx, ht⟩⟩
  | timeout h =>
    have ha := closeTimeoutSockBuf_aside _ _ _ _ _ h hw.owned
    refine ⟨ha.keepsWF hw, fun harm e he => ?_, fun a => by rw [ha.view]⟩
    rcases ha.events e he with ⟨e', he', -, -, hb⟩ | ⟨-, hb⟩
    · rw [← hb]; exact harm e' he'
    · exact hb
  | keventError => exact (setPhase_confSide s _).calm.moves.stepped hw
  | pluginEvent h => exact (registerPluginEvent_apart _ _ _ _ h).calm.moves.stepped hw
  | stopVirtualMachines h => exact hfalse ((beginStop_moves _ _ _ h).stepped hw)

/-! ## The transition system -/

/-- The daemon in an environment. -/
def bmd (env : Env) : System Daemon Input where
  init s := ∃ load off, boot env load off = some s
  step s i s' := step env s i = some s'

variable {ok : Daemon → Input → Prop} {P P₀ : Daemon → Prop}

instance (s : Daemon) (i : Input) : Decidable (anyStep s i) := inferInstanceAs (Decidable True)

/-- The daemon after it was started and made some moves that satisfy `ok`. -/
def Daemon.after (env : Env) (ok : Daemon → Input → Prop) [∀ s i, Decidable (ok s i)] (load : List LoadedConf)
    (l : List Input) : Option Daemon :=
  (boot env load 0).bind fun s => follow (step env) (fun s i => decide (ok s i)) s l

/-- What such a run leads to is reached. -/
theorem exists_reach [∀ s i, Decidable (ok s i)] [DecidablePred P] (load : List LoadedConf)
    (l : List Input) (h : (Daemon.after env ok load l).any (fun s => decide (P s)) = true) :
    ∃ s, Reach (bmd env) ok s ∧ P s := by
  obtain ⟨s, hs, h⟩ := (Option.any_eq_true _ _).mp h
  obtain ⟨s₀, h₀, hl⟩ := Option.bind_eq_some_iff.mp hs
  have hr : Reach (bmd env) ok s :=
    Reach.steps (.init ⟨load, 0, h₀⟩) (Steps.follow (fun _ _ _ h => h) (fun _ _ => of_decide_eq_true) hl)
  exact ⟨s, hr, of_decide_eq_true h⟩

/-- A run that is followed up to its end. -/
theorem exists_follow [∀ s i, Decidable (ok s i)] [DecidablePred P] {s₀ : Daemon} {l : List Input}
    (h : (follow (step env) (fun s i => decide (ok s i)) s₀ l).any (fun s => decide (P s)) = true) :
    ∃ s, Steps (bmd env) ok s₀ s ∧ P s := by
  obtain ⟨s, hs, h⟩ := (Option.any_eq_true _ _).mp h
  exact ⟨s, Steps.follow (fun _ _ _ h => h) (fun _ _ => of_decide_eq_true) hs, of_decide_eq_true h⟩

/-- The same for a run that makes the move `i` and goes on under another condition. -/
theorem exists_steps [∀ s i, Decidable (ok s i)] [DecidablePred P₀] [DecidablePred P]
    (load : List LoadedConf) (l₀ : List Input) (i : Input) (l : List Input)
    (h : (Daemon.after env anyStep load l₀).any (fun s₀ => decide (P₀ s₀) && (step env s₀ i).any fun s₁ =>
      (follow (step env) (fun s i => decide (ok s i)) s₁ l).any fun s => decide (P s)) = true) :
    ∃ s₀ s₁ s, Reach (bmd env) anyStep s₀ ∧ P₀ s₀ ∧ step env s₀ i = some s₁ ∧ Steps (bmd env) ok s₁ s ∧ P s := by
  obtain ⟨s₀, hr, h⟩ := exists_reach (P := fun s₀ => (decide (P₀ s₀) && (step env s₀ i).any fun s₁ =>
    (follow (step env) (fun s i => decide (ok s i)) s₁ l).any fun s => decide (P s)) = true) load l₀
    (by simpa only [Bool.decide_eq_true] using h)
  obtain ⟨h₀, h⟩ := Bool.and_eq_true_iff.mp h
  obtain ⟨s₁, h₁, h⟩ := (Option.any_eq_true _ _).mp h
  obtain ⟨s, hs, h⟩ := exists_follow h
  exact ⟨s₀, s₁, s, hr, of_decide_eq_true h₀, h₁, hs, h⟩

/-- The same for a run from the start. -/
theorem exists_boot_steps [∀ s i, Decidable (ok s i)] [DecidablePred P₀] [DecidablePred P]
    (load : List LoadedConf) (l : List Input) (h : (boot env load 0).any (fun s₀ => decide (P₀ s₀) &&
      (follow (step env) (fun s i => decide (ok s i)) s₀ l).any fun s => decide (P s)) = true) :
    ∃ s₀ s, boot env load 0 = some s₀ ∧ P₀ s₀ ∧ Steps (bmd env) ok s₀ s ∧ P s := by
  obtain ⟨s₀, hb, h⟩ := (Option.any_eq_true _ _).mp h
  obtain ⟨h₀, h⟩ := Bool.and_eq_true_iff.mp h
  obtain ⟨s, hs, h⟩ := exists_follow h
  exact ⟨s₀, s, hb, of_decide_eq_true h₀, hs, h⟩

/-- Between dispatches the lists are consistent and no event has lost its knote. -/
theorem reach_wf (hr : Reach (bmd env) ok s) : WF s ∧ s.Armed := by
  refine Reach.invariant (I := fun s => WF s ∧ s.Armed) ?_ ?_ hr
  · rintro s ⟨load, off, h⟩
    obtain ⟨hw, ha, -⟩ := boot_spec h
    exact ⟨hw, ha⟩
  · rintro s i s' - ⟨hw, ha⟩ - h
    have st := step_stepped hw h
    exact ⟨st.wf, st.armed ha⟩

/-- **Invariants of single VMs** are carried from `Life` to the daemon. A process is stolen only by a step that
    the side condition and the invariant itself admit. -/
theorem reach_life (theft : Prop) {P : Addr → View → Prop} (h0 : ∀ a, P a .empty)
    (hlife : ∀ a v w, P a v → Life env theft a v w → P a w)
    (htheft : ∀ s i, WF s → s.Armed → (∀ a, P a (s.view a)) → ok s i → s.steals i → theft)
    (hr : Reach (bmd env) ok s) : ∀ a, P a (s.view a) := by
  refine Reach.invariant (I := fun s => ∀ a, P a (s.view a)) ?_ ?_ hr
  · rintro s ⟨load, off, h⟩ a
    obtain ⟨-, -, -, -, l⟩ := boot_spec h
    exact star_keeps (fun v w hv hl => hlife a v w hv (hl.mono False.elim)) (l a) (h0 a)
  · intro s i s' hr' hP hok h a
    obtain ⟨hw, ha⟩ := reach_wf hr'
    have st := step_stepped hw h
    exact star_keeps (fun v w hv hl => hlife a v w hv (hl.mono (htheft s i hw ha hP hok))) (st.life a) (hP a)

end Bmd
