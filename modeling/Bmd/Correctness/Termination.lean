import Bmd.Correctness.Lifecycle

/-!
# `Correctness.Termination` — what `stop_virtual_machines` leaves behind

`stop_virtual_machines` counts the VMs in `LOAD` and `RUN` when it is entered and returns when it has seen that
many exits. The count is right as long as it is the number of VMs with a process (`Counted`): this needs that no
VM was already on its way down when the loop was entered, and that no event of the loop is answered with a new
process.
-/

namespace Bmd

open Lib Lib.Prog

variable {env : Env} {s s' t : Daemon} {i : Input} {e : Event} {b : Addr} {v : VmEntry} {io : Io} {u : Unit} {n : Nat}

/-! ## The events of the loop -/

/-- The callback of the event starts a process: a timer of a VM in `TERMINATE`, the exit of a loader that succeeded,
    or the exit of a guest that `on_vm_exit` starts again. -/
def Daemon.startsOn (s : Daemon) (e : Event) : Prop :=
  ∃ v ∈ s.vmList, e.data = .vm v.addr ∧
    ((e.cb = .onTimer ∧ v.state = .terminate) ∨
      (e.cb = .onVmExit ∧ ∃ status ∈ s.exitStatus v.pid,
        (v.state = .load ∧ loaded status = true) ∨
          (v.state = .run ∧ (s.vmConf v.addr).restarts status = true)))

instance (s : Daemon) (e : Event) : Decidable (s.startsOn e) :=
  inferInstanceAs (Decidable (∃ v ∈ s.vmList, e.data = .vm v.addr ∧ _))

/-- What the callback of a VM's event did: the VM is in state `st`, and the others are as they were. -/
structure Leaves (b : Addr) (st : State) (s t : Daemon) : Prop where
  phase : t.phase = s.phase
  state : (t.view b).state = some st
  others : ∀ a, a ≠ b → (t.view a).state = (s.view a).state

theorem Leaves.of_within {st : State} (hw : WF s) (he : e ∈ s.eventList) (hd : e.data = .vm b)
    (hin : Within b (s.delivered e) t) (hst : (t.view b).state = some st) : Leaves b st s t where
  phase := (congrArg Daemon.phase hin.core :)
  state := hst
  others a ha := by
    rw [hin.view ha, view_delivered_of_ne hw he (fun h => ha (by rw [hd] at h; cases h; rfl))]

/-- A timer of a VM with a process does not change its state. -/
theorem timer_leaves (hw : WF s) (he : e ∈ s.eventList) (hcb : e.cb = .onTimer) (hd : e.data = .vm b)
    (harm : e.armed = true) (hv : s.vm? b = some v) (hne : v.state ≠ .terminate)
    (h : onTimer env b (s.delivered e) = .ok (u, t)) : Leaves b v.state s t := by
  obtain ⟨v', k, k', hv', -, ev, g, hfires, -⟩ := onTimer_fires hw he hcb hd harm h
  refine .of_within hw he hd g.within ?_
  have hst : ((s.delivered e).view b).state = some v.state := by rw [ev]; exact view_state hv
  generalize (s.delivered e).view b = x at hfires hst
  generalize t.view b = y at hfires
  cases hfires with
  | start hterm _ =>
    rw [hst] at hterm
    exact (hne (Option.some.inj hterm)).elim
  | poweroff | ignored => exact hst

theorem read_leaves {r : ReadResult} (hw : WF s) (he : e ∈ s.eventList) (hcb : e.cb = .onReadVmOutput)
    (hd : e.data = .vm b) (hv : s.vm? b = some v) (h : onReadVmOutput b e.ident r (s.delivered e) = .ok (u, t)) :
    Leaves b v.state s t := by
  obtain ⟨v', hv', hin, ev⟩ := onReadVmOutput_reads hw he hcb hd h
  refine .of_within hw he hd hin ?_
  rw [ev]
  exact view_state hv

/-- The exit of a process that is not answered with a new one leaves the VM in `TERMINATE`. -/
theorem exit_leaves {status : Nat} (hw : WF s) (he : e ∈ s.eventList) (hcb : e.cb = .onVmExit) (hd : e.data = .vm b)
    (hv : s.vm? b = some v) (hact : v.state = .load ∨ v.state = .run) (hstat : s.exitStatus v.pid = some status)
    (hno : ¬s.startsOn e) (h : onVmExit env b e.ident (s.delivered e) = .ok (u, t)) : Leaves b .terminate s t := by
  replace h := get_bind h
  have hv' : (s.delivered e).vm? b = some v := hv
  have hva := addr_of_vm? hv
  simp only [hv'] at h
  obtain ⟨x, h, hx⟩ := onVmExitVm_waited h
  obtain rfl : x = status := hx status hstat
  obtain ⟨st, hst⟩ : ∃ st, st = (s.delivered e).waited v e.ident x := ⟨_, rfl⟩
  rw [← hst] at h
  have hsome : (st.vm? b).isSome := by rw [hst]; show (s.vm? b).isSome; rw [hv]; rfl
  -- neither branch that starts a process is taken
  have hstop : Within b st t ∧ t.view b = (st.view b).stop b := by
    have hnot : ¬((v.state = .load ∧ loaded x = true) ∨
        (v.state = .run ∧ ((s.delivered e).vmConf v.addr).restarts x = true)) := fun hc =>
      hno ⟨v, mem_of_vm? hv, by rw [hva, hd], .inr ⟨hcb, x, hstat, hc⟩⟩
    rcases hact with hs | hs
    · have hl : ¬loaded x = true := fun hl => hnot (.inl ⟨hs, hl⟩)
      simp only [onVmExitStatus, hs, if_neg hl, hva] at h
      exact stopVirtualMachine_spec hsome h
    · have hl : ¬((s.delivered e).vmConf v.addr).restarts x = true := fun hl => hnot (.inr ⟨hs, hl⟩)
      simp only [onVmExitStatus, hs, if_neg hl] at h
      rw [hva] at h
      exact onVmStopped_spec hsome h
  obtain ⟨hin, ev⟩ := hstop
  refine ⟨?_, by rw [ev]; rfl, fun a ha => ?_⟩
  · have hp : t.phase = st.phase := (congrArg Daemon.phase hin.core :)
    rw [hp, hst]
    rfl
  · rw [hin.view ha, hst, Daemon.waited, view_recorded_of_ne (by rw [Daemon.exitOf, hva]; exact ha), view_reaped,
      view_note_of_ne (b := b) (by rw [hva]; rfl) ha,
      view_delivered_of_ne hw he (fun h => ha (by rw [hd] at h; cases h; rfl))]
    rfl

/-! ## The count -/

/-- The VM at `a` has a process. -/
def Daemon.Busy (s : Daemon) (a : Addr) : Prop := ∃ st, (s.view a).state = some st ∧ st ≠ .terminate

/-- `n` VMs have a process, and none of them is on its way down. -/
structure Counted (s : Daemon) (n : Nat) : Prop where
  states : ∀ a st, (s.view a).state = some st → st = .terminate ∨ st = .load ∨ st = .run
  count : ∃ l : List Addr, l.Nodup ∧ l.length = n ∧ ∀ a, a ∈ l ↔ s.Busy a

theorem Counted.of_states (h : Counted s n) (hst : ∀ a, (t.view a).state = (s.view a).state) : Counted t n := by
  obtain ⟨l, hnd, hlen, hmem⟩ := h.count
  refine ⟨fun a st ha => h.states a st (hst a ▸ ha), l, hnd, hlen, fun a => ?_⟩
  rw [hmem, Daemon.Busy, Daemon.Busy, hst]

theorem Leaves.counted_same (h : Counted s n) (hv : s.vm? b = some v) (hl : Leaves b v.state s t) : Counted t n := by
  refine h.of_states fun a => ?_
  by_cases ha : a = b
  · subst ha
    rw [hl.state, view_state hv]
  · exact hl.others a ha

/-- One VM less has a process. -/
theorem Leaves.counted_pred (h : Counted s (n + 1)) (hb : s.Busy b) (hl : Leaves b .terminate s t) : Counted t n := by
  obtain ⟨l, hnd, hlen, hmem⟩ := h.count
  have hbl : b ∈ l := (hmem b).mpr hb
  refine ⟨fun a st ha => ?_, l.erase b, hnd.erase b, ?_, fun a => ?_⟩
  · by_cases hab : a = b
    · subst hab
      rw [hl.state] at ha
      exact .inl (Option.some.inj ha).symm
    · exact h.states a st (hl.others a hab ▸ ha)
  · rw [List.length_erase_of_mem hbl, hlen]
    rfl
  · rw [hnd.mem_erase_iff, hmem]
    by_cases hab : a = b
    · subst hab
      refine ⟨fun h => (h.1 rfl).elim, ?_⟩
      rintro ⟨st, hst, hne⟩
      rw [hl.state] at hst
      exact (hne (Option.some.inj hst).symm).elim
    · rw [Daemon.Busy, Daemon.Busy, hl.others a hab]
      exact ⟨fun h => h.2, fun h => ⟨hab, h⟩⟩

theorem Counted.pos (h : Counted s n) (hb : s.Busy b) : ∃ m, n = m + 1 := by
  obtain ⟨l, -, hlen, hmem⟩ := h.count
  have hpos : 0 < l.length := List.length_pos_of_mem ((hmem b).mpr hb)
  exact ⟨n - 1, by omega⟩

/-! ## Entering the loop -/

theorem vmOf_state (s : Daemon) (a : Addr) : (s.vmOf a).state = (s.view a).state.getD .terminate := by
  show _ = ((s.vm? a).map (·.state)).getD .terminate
  cases hv : s.vm? a with
  | none => simp only [Daemon.vmOf, hv]; rfl
  | some v => rw [vmOf_of_vm? hv]; rfl

/-- The VM at `a` is asked to stop when the loop is entered. -/
def Daemon.stopsAt (s : Daemon) (a : Addr) : Bool :=
  decide ((s.vmOf a).state = .load ∨ (s.vmOf a).state = .run)

/-- The first loop of `stop_virtual_machines` counts the VMs that it asks to stop, and changes no state. -/
theorem stopVms_count {l : List Addr} (h : stopVms env l s = .ok (n, s')) :
    n = (l.filter s.stopsAt).length ∧ ∀ a, (s'.view a).state = (s.view a).state := by
  induction l generalizing s n with
  | nil =>
    cases h
    exact ⟨rfl, fun _ => rfl⟩
  | cons a rest ih =>
    replace h := get_bind h
    split at h
    · next hact =>
      obtain ⟨_, s1, h1, h⟩ := of_bind h
      obtain ⟨k, s2, h2, h⟩ := of_bind h
      obtain ⟨rfl, rfl⟩ := pure_ok.mp h
      obtain ⟨g, ok, ev, -⟩ := requestStop_spec h1
      have hsame : ∀ c, (s1.view c).state = (s.view c).state := by
        intro c
        by_cases hc : c = a
        · subst hc
          rw [ev]
          rfl
        · rw [g.view hc]
      obtain ⟨hk, hst⟩ := ih h2
      have hpred : s1.stopsAt = s.stopsAt := by
        funext c
        simp only [Daemon.stopsAt, vmOf_state, hsame]
      rw [hpred] at hk
      have ha : s.stopsAt a = true := decide_eq_true hact
      refine ⟨?_, fun c => (hst c).trans (hsame c)⟩
      rw [List.filter_cons_of_pos ha, List.length_cons, hk]
    · next hact =>
      obtain ⟨hk, hst⟩ := ih h
      have ha : ¬s.stopsAt a = true := fun h => hact (of_decide_eq_true h)
      refine ⟨?_, hst⟩
      rw [List.filter_cons_of_neg ha, hk]

/-- No VM is on its way down. -/
def Daemon.Unstopped (s : Daemon) : Prop :=
  ∀ v ∈ s.vmList, v.state = .terminate ∨ v.state = .load ∨ v.state = .run

instance (s : Daemon) : Decidable s.Unstopped :=
  inferInstanceAs (Decidable (∀ v ∈ s.vmList, v.state = .terminate ∨ v.state = .load ∨ v.state = .run))

theorem Daemon.Unstopped.states {st : State} (h : s.Unstopped) (hst : (s.view b).state = some st) :
    st = .terminate ∨ st = .load ∨ st = .run := by
  obtain ⟨v, hv, rfl⟩ := Option.map_eq_some_iff.mp hst
  exact h v (mem_of_vm? hv)

theorem Daemon.Unstopped.stopsAt_iff (h : s.Unstopped) : s.stopsAt b = true ↔ s.Busy b := by
  rw [Daemon.stopsAt, decide_eq_true_iff, vmOf_state]
  constructor
  · cases hst : (s.view b).state with
    | none => rintro (h | h) <;> cases h
    | some st =>
      intro hact
      refine ⟨st, hst, ?_⟩
      rintro rfl
      rcases hact with h | h <;> cases h
  · rintro ⟨st, hst, hne⟩
    rw [hst]
    exact (h.states hst).resolve_left hne

/-- The count with which the loop is entered is the number of VMs with a process. -/
theorem beginStop_counted (hw : WF s) (hun : s.Unstopped) (h : beginStop env s = .ok (u, s')) :
    ∃ n, s'.phase = .stopping n ∧ Counted s' n := by
  replace h := get_bind h
  obtain ⟨_, s1, h1, h⟩ := of_bind h
  replace h := get_bind h
  obtain ⟨n, s3, h3, h⟩ := of_bind h
  have hs' := of_modify h
  have hside := closeFd_aside _ _ _ _ h1 hw.owned
  have hvms : s1.vmList = s.vmList := (congrArg Daemon.vmList hside.vmSide :)
  obtain ⟨hn, hst⟩ := stopVms_count h3
  have hun1 : s1.Unstopped := by rw [Daemon.Unstopped, hvms]; exact hun
  have hc : Counted s1 n := by
    refine ⟨fun a st ha => hun1.states ha, (s1.vmList.map (·.addr)).filter s1.stopsAt, ?_, hn.symm, fun a => ?_⟩
    · rw [hvms]
      exact hw.vmNodup.filter _
    · rw [List.mem_filter, hun1.stopsAt_iff]
      refine ⟨fun h => h.2, fun hb => ⟨?_, hb⟩⟩
      obtain ⟨st, hst, -⟩ := hb
      obtain ⟨v, hv, -⟩ := Option.map_eq_some_iff.mp hst
      rw [← addr_of_vm? hv]
      exact List.mem_map_of_mem (mem_of_vm? hv)
  subst hs'
  exact ⟨n, rfl, hc.of_states hst⟩

/-! ## The loop -/

/-- A child exits, an event of a VM is delivered, or `kevent` fails. -/
def Daemon.ofVms (s : Daemon) : Input → Prop
  | .procExit _ _ => True
  | .keventError => True
  | .event x _ => ∀ e ∈ s.event? x, ∃ v ∈ s.vmList, e.data = .vm v.addr
  | _ => False

instance (s : Daemon) (i : Input) : Decidable (s.ofVms i) :=
  match i with
  | .procExit _ _ => .isTrue trivial
  | .keventError => .isTrue trivial
  | .event x _ => inferInstanceAs (Decidable (∀ e ∈ s.event? x, ∃ v ∈ s.vmList, e.data = .vm v.addr))
  | .timeout _ _ => .isFalse id
  | .pluginEvent _ => .isFalse id
  | .stopVirtualMachines => .isFalse id

/-- Such a move, which is not answered with a new process. -/
def Daemon.winds (s : Daemon) (i : Input) : Prop := s.ofVms i ∧ ∀ e ∈ s.arrival i, ¬s.startsOn e

instance (s : Daemon) (i : Input) : Decidable (s.winds i) :=
  inferInstanceAs (Decidable (s.ofVms i ∧ ∀ e ∈ s.arrival i, ¬s.startsOn e))

/-- The process whose exit is delivered has exited. -/
theorem exitStatus_of_deliverable (hw : WF s) (harm : s.Armed) (hm : ∀ a, (s.view a).Manned)
    (he : e ∈ s.eventList) (hcb : e.cb = .onVmExit) (hd : e.data = .vm b) (hdel : s.deliverable e = true)
    (hv : s.vm? b = some v) : v.state ≠ .terminate ∧ ∃ status, s.exitStatus v.pid = some status := by
  have hwf := hw.events e he
  simp only [Event.wf, hcb] at hwf
  have hmem := mem_waits harm he hwf.1 hd
  have hne : v.state ≠ .terminate := by
    intro hst
    rw [((hm b).vacant (.inr (by rw [view_state hv, hst]))).2] at hmem
    cases hmem
  refine ⟨hne, ?_⟩
  obtain ⟨p, hp, ⟨hpid, -⟩, -, hwaits⟩ := (hm b).occupied _ (view_state hv) hne
  rw [view_pid, vmOf_of_vm? hv] at hpid
  rw [hwaits, List.mem_singleton] at hmem
  have hps : p ∈ s.procs := by
    have : p ∈ s.procs.filter (·.owner == b) := by
      show p ∈ (s.view b).procs
      rw [hp]
      exact List.mem_singleton_self p
    exact (List.mem_filter.mp this).1
  -- the kernel does not report the exit of a process that runs
  have hdead : p.status ≠ none := by
    intro hnone
    simp only [Daemon.deliverable, Bool.and_eq_true, Bool.not_eq_true', hwf.1, beq_self_eq_true, Bool.true_and,
      List.any_eq_false] at hdel
    exact hdel.2 p hps (by simp [hmem, hnone])
  obtain ⟨status, hstatus⟩ := Option.ne_none_iff_exists'.mp hdead
  refine ⟨status, ?_⟩
  have hfind : s.procs.find? (·.pid == p.pid) = some p := Keyed.find?_of_mem hw.pids hps
  rw [Daemon.exitStatus, ← hpid, hfind]
  exact hstatus

/-- What the delivery of a VM's event does to the VM: an exit takes it to `TERMINATE`, other events keep its
    state. -/
theorem callback_leaves (hw : WF s) (harm : s.Armed) (hm : ∀ a, (s.view a).Manned)
    (hst : v.state = .terminate ∨ v.state = .load ∨ v.state = .run) (he : e ∈ s.eventList)
    (hdel : s.deliverable e = true) (hd : e.data = .vm b) (hv : s.vm? b = some v) (hno : ¬s.startsOn e)
    (h : callback env e io (s.delivered e) = .ok (u, t)) :
    (e.filter = .proc ∧ e.type = .event ∧ v.state ≠ .terminate ∧ Leaves b .terminate s t) ∨
      (e.filter ≠ .proc ∧ Leaves b v.state s t) := by
  have hwf := hw.events e he
  have harmed := armed_of_deliverable hdel
  cases hcb : e.cb with
  | onTimer =>
    simp only [Event.wf, hcb] at hwf
    simp only [callback, hcb, hd] at h
    refine .inr ⟨by rw [hwf.1]; decide, timer_leaves hw he hcb hd harmed hv (fun hterm => hno ?_) h⟩
    exact ⟨v, mem_of_vm? hv, by rw [addr_of_vm? hv, hd], .inl ⟨hcb, hterm⟩⟩
  | onVmExit =>
    simp only [Event.wf, hcb] at hwf
    simp only [callback, hcb, hd] at h
    obtain ⟨hne, status, hstatus⟩ := exitStatus_of_deliverable hw harm hm he hcb hd hdel hv
    exact .inl ⟨hwf.1, hwf.2.2.1, hne, exit_leaves hw he hcb hd hv (hst.resolve_left hne) hstatus hno h⟩
  | onReadVmOutput =>
    simp only [Event.wf, hcb] at hwf
    simp only [callback, hcb, hd] at h
    exact .inr ⟨by rw [hwf.1]; decide, read_leaves hw he hcb hd hv h⟩
  | onRecvSockBuf | onSendSockBuf =>
    simp only [Event.wf, hcb] at hwf
    obtain ⟨a, ha⟩ := hwf.2.2.2
    rw [hd] at ha
    cases ha
  | onAcceptCmdSock | onSigterm | onSighup =>
    simp only [Event.wf, hcb] at hwf
    rw [hd] at hwf
    cases hwf.2.2.2
  | plugin =>
    simp only [Event.wf, hcb] at hwf
    rw [hd] at hwf
    cases hwf.2

/-- In the loop, the count is the number of VMs with a process. -/
def Daemon.Accounted (s : Daemon) : Prop := s.phase = .failed ∨ ∃ n, s.phase = .stopping n ∧ Counted s n

theorem countDown_of_proc (hf : e.filter = .proc) (ht : e.type = .event) :
    countDown e (.stopping (n + 1)) = .stopping n := by
  simp only [countDown, hf, ht, and_self, if_true]

theorem countDown_of_not_proc {p : Phase} (hf : e.filter ≠ .proc) : countDown e p = p := by
  unfold countDown
  split
  · rw [if_neg fun h => hf h.2]
  · rfl

/-- The delivery of a VM's event to the loop. -/
theorem dispatch_accounted (hw : WF s) (harm : s.Armed) (hm : ∀ a, (s.view a).Manned)
    (hn : s.phase = .stopping n) (hc : Counted s n) (he : e ∈ s.eventList) (hdel : s.deliverable e = true)
    (hd : e.data = .vm b) (hv : s.vm? b = some v) (hno : ¬s.startsOn e)
    (h : dispatch env e io { s with phase := countDown e s.phase } = .ok (u, s')) :
    ∃ m, s'.phase = .stopping m ∧ Counted s' m := by
  have hw1 := (setPhase_confSide s (countDown e s.phase)).wf hw
  have hc1 : Counted { s with phase := countDown e s.phase } n := hc.of_states fun _ => rfl
  obtain ⟨t, ht, hphase, hview⟩ := dispatch_callback hw1 he hdel h
  have hin := hc.states b v.state (view_state hv)
  rw [hphase]
  rcases callback_leaves hw1 harm hm hin he hdel hd hv hno ht with ⟨hf, hty, hne, hl⟩ | ⟨hf, hl⟩
  · -- an exit is counted, and its VM has no process any more
    have hb : s.Busy b := ⟨v.state, view_state hv, hne⟩
    obtain ⟨m, rfl⟩ := hc.pos hb
    refine ⟨m, ?_, (hl.counted_pred hc1 hb).of_states fun a => congrArg View.state (hview a)⟩
    rw [hl.phase, hn, countDown_of_proc hf hty]
  · refine ⟨n, ?_, (hl.counted_same hc1 hv).of_states fun a => congrArg View.state (hview a)⟩
    rw [hl.phase, countDown_of_not_proc hf, hn]

/-- **Every step of the loop** keeps the count right. -/
theorem step_accounted (hw : WF s) (harm : s.Armed) (hm : ∀ a, (s.view a).Manned) (hc : s.Accounted)
    (hok : s.winds i) (h : step env s i = some s') : s'.Accounted := by
  cases step_taken h with
  | procExit =>
    refine hc.imp id ?_
    rintro ⟨n, hn, hcount⟩
    exact ⟨n, hn, hcount.of_states fun _ => rfl⟩
  | keventError => rcases hc with hp | ⟨n, hp, -⟩ <;> exact .inl (by simp only [hp]; rfl)
  | @event x io e u _ hx hwait hdel h =>
    obtain ⟨v, hv, hd⟩ := hok.1 e hx
    rcases hc with hp | ⟨n, hp, hcount⟩
    · simp only [Daemon.waiting, hp] at hwait
      cases hwait
    · refine .inr (dispatch_accounted hw harm hm hp hcount (mem_of_event? hx) hdel hd (hw.vm?_of_mem hv) ?_ h)
      exact hok.2 e hx
  | timeout | pluginEvent | stopVirtualMachines => exact hok.1.elim

/-- When nothing is left to count, no process is left. -/
theorem Counted.procs_nil (hm : ∀ a, (s.view a).Manned) (hc : Counted s 0) : s.procs = [] := by
  obtain ⟨l, -, hlen, hmem⟩ := hc.count
  rw [List.length_eq_zero_iff.mp hlen] at hmem
  rw [List.eq_nil_iff_forall_not_mem]
  intro p hp
  have hview : p ∈ (s.view p.owner).procs := List.mem_filter.mpr ⟨hp, beq_self_eq_true _⟩
  have hidle : (s.view p.owner).state = none ∨ (s.view p.owner).state = some .terminate := by
    cases hst : (s.view p.owner).state with
    | none => exact .inl rfl
    | some st =>
      refine .inr (congrArg some ?_)
      by_contra hne
      cases (hmem p.owner).mpr ⟨st, hst, hne⟩
  rw [((hm p.owner).vacant hidle).1] at hview
  cases hview

/-! ## Termination -/

/-- **Termination.** The system calls succeed; no VM is on its way down when `main` calls `stop_virtual_machines`;
    and its loop is given exits and events of VMs, none of which is answered with a new process. Then no child
    is left when it returns 0. -/
theorem stop_leaves_none {s₀ s₁ : Daemon} (hr : env.Reliable) (h₀ : Reach (bmd env) anyStep s₀)
    (hun : s₀.Unstopped) (h₁ : step env s₀ .stopVirtualMachines = some s₁)
    (h : Steps (bmd env) Daemon.winds s₁ s) (hend : s.phase = .stopping 0) : s.procs = [] := by
  have hr₁ : Reach (bmd env) anyStep s₁ := .step h₀ trivial h₁
  have hacc : s₁.Accounted := by
    cases step_taken h₁ with
    | stopVirtualMachines h => exact .inr (beginStop_counted (reach_wf h₀).1 hun h)
  obtain ⟨hrs, hacc⟩ : Reach (bmd env) anyStep s ∧ s.Accounted := by
    refine h.invariant (I := fun s => Reach (bmd env) anyStep s ∧ s.Accounted) ⟨hr₁, hacc⟩ ?_
    rintro t i t' - ⟨hrt, hat⟩ hok hst
    obtain ⟨hw, harm⟩ := reach_wf hrt
    exact ⟨.step hrt trivial hst, step_accounted hw harm (reach_manned hr hrt) hat hok hst⟩
  rcases hacc with hp | ⟨n, hp, hc⟩
  · rw [hend] at hp
    cases hp
  · rw [hend] at hp
    cases hp
    exact hc.procs_nil (reach_manned hr hrs)

/-- A guest that exits with status 1 is not started again. -/
theorem stop_leaves_none_halted : ∃ s₀ s₁ s, Reach (bmd .ideal) anyStep s₀ ∧ (∃ v ∈ s₀.vmList, v.state = .run) ∧
    step .ideal s₀ .stopVirtualMachines = some s₁ ∧ Steps (bmd .ideal) Daemon.winds s₁ s ∧
    s.phase = .stopping 0 ∧ s.procs = [] := by
  obtain ⟨s₀, s₁, s, h₀, ⟨hrun, hun⟩, h₁, h, hend⟩ : ∃ s₀ s₁ s, Reach (bmd .ideal) anyStep s₀ ∧
      ((∃ v ∈ s₀.vmList, v.state = .run) ∧ s₀.Unstopped) ∧ step .ideal s₀ .stopVirtualMachines = some s₁ ∧
      Steps (bmd .ideal) Daemon.winds s₁ s ∧ s.phase = .stopping 0 :=
    exists_steps [csmVm] [.event 2 {}] .stopVirtualMachines
      [.procExit 1 256, .event 7 {}] (by decide +kernel)
  exact ⟨s₀, s₁, s, h₀, hrun, h₁, h, hend, stop_leaves_none Env.ideal_reliable h₀ hun h₁ h hend⟩

/-- A guest answers the request to stop with a reboot: the loop counts the exit, `on_vm_exit` starts a new
    process, and the daemon leaves it behind. -/
theorem stop_leaves_guest : ∃ s₀ s₁ s, Reach (bmd .ideal) anyStep s₀ ∧ s₀.Unstopped ∧
    step .ideal s₀ .stopVirtualMachines = some s₁ ∧ Steps (bmd .ideal) Daemon.ofVms s₁ s ∧
    s.phase = .stopping 0 ∧ ∃ v ∈ s.vmList, ∃ p ∈ s.procs, p.owner = v.addr ∧ p.pid = v.pid ∧ p.status = none :=
  exists_steps [csmVm] [.event 2 {}] .stopVirtualMachines
    [.procExit 1 0, .event 7 {}] (by decide +kernel)

end Bmd
