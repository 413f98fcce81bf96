import Bmd.Correctness.Lifetime

/-!
# `Correctness.Lifecycle` — a VM that is not in `TERMINATE` has exactly one process

When the system calls that make processes and events succeed, the six states mean what they should: a VM in any
state but `TERMINATE` has exactly one un-reaped child, the one with the pid in its entry, and exactly one event
that waits for it; a VM in `TERMINATE` has neither. `Manned` states this for a view; it is kept by every move of
`Life`.
-/

namespace Bmd

open Lib Lib.Prog

variable {env : Env} {a : Addr}

namespace View

/-- No process and no event that waits for one. -/
def Vacant (v : View) : Prop := v.procs = [] ∧ v.waits = []

/-- One process, the latest one, and one event that waits for it. -/
def Occupied (v : View) : Prop :=
  ∃ p : Proc, v.procs = [p] ∧ (p.pid = v.pid ∧ p.serial = v.serial) ∧ 0 < p.pid ∧ v.waits = [p.pid]

/-- Every signal went to an un-reaped child, and `on_vm_exit` waited for the process whose exit was delivered. -/
structure Truthful (v : View) : Prop where
  kill : ∀ a pid sig child, .kill a pid sig child ∈ v.log → child = true ∧ 0 < pid
  wait : ∀ a ident pid exited, .wait a ident pid exited ∈ v.log → ident = pid ∧ exited = true

/-- **The invariant of the life cycle.** -/
structure Manned (v : View) : Prop where
  vacant : v.state = none ∨ v.state = some .terminate → v.Vacant
  occupied : ∀ st, v.state = some st → st ≠ .terminate → v.Occupied
  truthful : v.Truthful

/-- The action neither sends a signal nor waits for a process. -/
def Harmless : Action → Prop
  | .kill .. => False
  | .wait .. => False
  | _ => True

variable {v w : View}

theorem Truthful.cons {x : Action} (h : v.Truthful) (hl : w.log = x :: v.log) (hx : Harmless x) :
    w.Truthful where
  kill a pid sig child hm := by
    rcases List.mem_cons.mp (hl ▸ hm) with rfl | hm
    · exact hx.elim
    · exact h.kill a pid sig child hm
  wait a ident pid exited hm := by
    rcases List.mem_cons.mp (hl ▸ hm) with rfl | hm
    · exact hx.elim
    · exact h.wait a ident pid exited hm

theorem Truthful.of_log (h : v.Truthful) (hl : w.log = v.log) : w.Truthful :=
  ⟨fun a pid sig child hm => h.kill a pid sig child (hl ▸ hm),
    fun a ident pid exited hm => h.wait a ident pid exited (hl ▸ hm)⟩

theorem Truthful.cons_kill {pid : Pid} {sig : Signal} {child : Bool} (h : v.Truthful) (hc : child = true)
    (hp : 0 < pid) : (v.note (.kill a pid sig child)).Truthful where
  kill a pid sig child hm := by
    rcases List.mem_cons.mp hm with heq | hm
    · cases heq; exact ⟨hc, hp⟩
    · exact h.kill a pid sig child hm
  wait a ident pid exited hm := by
    rcases List.mem_cons.mp hm with heq | hm
    · cases heq
    · exact h.wait a ident pid exited hm

theorem Truthful.cons_wait {exited : Bool} (h : v.Truthful) (a : Addr) (pid : Pid) (hx : exited = true) :
    (v.note (.wait a pid pid exited)).Truthful where
  kill a pid sig child hm := by
    rcases List.mem_cons.mp hm with heq | hm
    · cases heq
    · exact h.kill a pid sig child hm
  wait a ident pid exited hm := by
    rcases List.mem_cons.mp hm with heq | hm
    · cases heq; exact ⟨rfl, hx⟩
    · exact h.wait a ident pid exited hm

theorem Truthful.setState (h : v.Truthful) (st : State) : (v.setState a st).Truthful :=
  h.cons rfl trivial

theorem Truthful.arm (h : v.Truthful) (p : Purpose) (t : Int) (ok : Bool) : (v.arm a p t ok).Truthful :=
  h.cons rfl trivial

theorem Occupied.child (h : v.Occupied) : v.isChild v.pid = true ∧ 0 < v.pid := by
  obtain ⟨p, hp, ⟨hpid, -⟩, hpos, -⟩ := h
  exact ⟨by simp [isChild, hp, hpid], hpid ▸ hpos⟩

theorem Truthful.acpiPoweroff (h : v.Truthful) (ho : v.Occupied) : (v.acpiPoweroff a).Truthful :=
  Truthful.cons_kill (h.cons (w := v.note (.acpiPoweroff a v.serial)) rfl trivial) ho.child.1 ho.child.2

theorem Truthful.requestStop (h : v.Truthful) (ho : v.Occupied) (t : Int) (ok : Bool) :
    (v.requestStop a t ok).Truthful := (h.acpiPoweroff ho).arm _ _ _

theorem Truthful.poweroff {opened : Bool} (h : v.Truthful) (ho : v.Occupied) : (v.poweroff a opened).Truthful := by
  have h1 : (v.note (.poweroff a v.serial)).Truthful := h.cons rfl trivial
  have h2 : ((v.note (.poweroff a v.serial)).note (v.force a opened)).Truthful := by
    apply force_cases (P := fun x => ((v.note (.poweroff a v.serial)).note x).Truthful)
    · exact fun _ => h1.cons_kill ho.child.1 ho.child.2
    · exact fun _ => h1.cons rfl trivial
  exact h2.of_log rfl

/-! ## Building the invariant -/

theorem Manned.of_terminate (hst : v.state = some .terminate) (hv : v.Vacant) (ht : v.Truthful) : v.Manned :=
  ⟨fun _ => hv, fun st h hne => by rw [hst] at h; cases h; exact (hne rfl).elim, ht⟩

theorem Manned.of_gone (hst : v.state = none) (hv : v.Vacant) (ht : v.Truthful) : v.Manned :=
  ⟨fun _ => hv, fun st h => (by rw [hst] at h; cases h), ht⟩

theorem Manned.of_active {st : State} (hst : v.state = some st) (hne : st ≠ .terminate) (hv : v.Occupied)
    (ht : v.Truthful) : v.Manned :=
  ⟨fun h => by rcases h with h | h <;> rw [hst] at h <;> cases h; exact (hne rfl).elim, fun _ _ _ => hv, ht⟩

theorem Manned.procs_le_one (h : v.Manned) : v.procs.length ≤ 1 := by
  by_cases hst : v.state = none ∨ v.state = some .terminate
  · rw [(h.vacant hst).1]
    exact Nat.zero_le 1
  · obtain ⟨hnone, hterm⟩ := not_or.mp hst
    obtain ⟨st, hst⟩ := Option.ne_none_iff_exists'.mp hnone
    obtain ⟨p, hp, -⟩ := h.occupied st hst fun heq => hterm (heq ▸ hst)
    rw [hp]
    exact Nat.le_refl 1

/-- A change of the log and the timers only. -/
theorem Manned.of_same (h : v.Manned) (hst : w.state = v.state) (hpid : w.pid = v.pid ∧ w.serial = v.serial)
    (hp : w.procs = v.procs) (hw : w.waits = v.waits) (ht : w.Truthful) : w.Manned :=
  ⟨fun hs => by rw [hst] at hs; have := h.vacant hs; exact ⟨hp.trans this.1, hw.trans this.2⟩,
    fun st hs hne => by
      rw [hst] at hs
      obtain ⟨p, h1, h2, h3, h4⟩ := h.occupied st hs hne
      exact ⟨p, hp.trans h1, ⟨h2.1.trans hpid.1.symm, h2.2.trans hpid.2.symm⟩, h3, hw.trans h4⟩, ht⟩

/-- A change of the state between two that have a process. -/
theorem Manned.set_active {st st' : State} (h : v.Manned) (hst : v.state = some st) (hne : st ≠ .terminate)
    (hne' : st' ≠ .terminate) : (v.setState a st').Manned :=
  .of_active rfl hne' (h.occupied st hst hne) (h.truthful.setState st')

end View

open View

variable {v w : View}

/-! ## Starting -/

theorem Starts.manned (hr : env.Reliable) (h : Starts env a v w) (hv : v.Vacant) (ht : v.Truthful) : w.Manned := by
  cases h with
  | refused h =>
    rcases h with h | h
    · exact .of_terminate h hv ht
    · exact (h hr).elim
  | failed => exact .of_terminate rfl hv (ht.setState _)
  | @started _ p st hp hst hs =>
    have hne : st ≠ .terminate := by rcases hst with ⟨rfl, -⟩ | ⟨rfl, -⟩ <;> decide
    have hlog : ((v.spawn a p).setState a st).Truthful :=
      Truthful.setState (v := v.spawn a p) (ht.cons rfl trivial) st
    have hocc : (((v.spawn a p).setState a st).wait p.pid).Occupied :=
      ⟨p, congrArg (p :: ·) hv.1, ⟨rfl, rfl⟩, hp.pid, congrArg (p.pid :: ·) hv.2⟩
    cases hs with
    | waiting => exact .of_active rfl hne hocc (hlog.of_log rfl)
    | timed _ _ hok => exact .of_active rfl hne hocc (hlog.cons rfl trivial)
    | abandoned h => exact (h hr.toRegisters).elim

/-! ## Moves -/

theorem Fires.manned (hr : env.Reliable) (h : Fires env a v w) (hv : v.Manned) : w.Manned := by
  cases h with
  | start hst h => exact h.manned hr (hv.vacant (.inr hst)) hv.truthful
  | poweroff hst hne _ =>
    exact hv.of_same rfl ⟨rfl, rfl⟩ rfl rfl (hv.truthful.poweroff (hv.occupied _ hst hne))
  | ignored => exact hv

/-- After the reaping, the VM has no process whatever its state says. -/
theorem Exits.manned (hr : env.Reliable) (h : Exits env a v w) (hv : v.Vacant) (ht : v.Truthful) : w.Manned := by
  have hstop : (v.stop a).Manned := .of_terminate rfl hv (Truthful.setState (v := v.drain) (ht.of_log rfl) _)
  cases h with
  | loaded _ h | rebooted _ h => exact h.manned hr hv ht
  | loadFailed | stopped => exact hstop
  | restarting => exact .of_terminate rfl hv (Truthful.arm (hstop.truthful.setState _) _ _ _)
  | removed => exact .of_gone rfl ⟨hv.1, rfl⟩ (hstop.truthful.of_log rfl)
  | stale hst => exact .of_terminate hst hv ht

theorem Redirects.ne_terminate {st st' : State} (h : Redirects st st') : st ≠ .terminate ∧ st' ≠ .terminate := by
  cases st <;> cases st' <;> first | exact h.elim | exact ⟨by decide, by decide⟩

theorem View.Active.ne_terminate {st : State} (h : v.Active st) : st ≠ .terminate := by
  rcases h.2 with rfl | rfl <;> decide

/-- An event that waits for a process is there only for the process of the VM. -/
theorem View.Manned.waited {st : State} {pid : Pid} {l l' : List Int} (hv : v.Manned) (hl : v.waits = l ++ pid :: l')
    (hst : v.state = some st) : ∃ q, v.procs = [q] ∧ q.pid = v.pid ∧ q.pid = pid ∧ l ++ l' = [] := by
  have hne : st ≠ .terminate := by
    rintro rfl
    have hnil := (hv.vacant (.inr hst)).2
    rw [hl] at hnil
    simp at hnil
  obtain ⟨q, hq, ⟨hqpid, -⟩, -, hw⟩ := hv.occupied st hst hne
  rw [hl] at hw
  rcases l with _ | ⟨y, l⟩
  · simp only [List.nil_append, List.cons.injEq] at hw
    exact ⟨q, hq, hqpid, hw.1.symm, hw.2⟩
  · simp at hw

/-- A move keeps the view `Manned`, provided that no other VM reaps a process of this one. -/
theorem Life.manned (hr : env.Reliable) (hv : v.Manned) (h : Life env False a v w) : w.Manned := by
  have hact : ∀ {st}, v.Active st → v.Occupied := fun h => hv.occupied _ h.1 h.ne_terminate
  cases h with
  | childExit pid status =>
    refine ⟨fun hst => ⟨by simp [(hv.vacant hst).1], (hv.vacant hst).2⟩, fun st hst hne => ?_,
      hv.truthful.of_log rfl⟩
    obtain ⟨p, hp, hpid, hpos, hw⟩ := hv.occupied st hst hne
    by_cases hpp : p.pid = pid
    · exact ⟨{ p with status := some status }, by simp [hp, hpp], hpid, hpos, hw⟩
    · exact ⟨p, by simp [hp, hpp], hpid, hpos, hw⟩
  | stolen _ h => exact h.elim
  | timer hl hst h =>
    exact h.manned hr (hv.of_same rfl ⟨rfl, rfl⟩ rfl rfl (hv.truthful.cons rfl trivial))
  | @exit _ p pid l l' st x hl hst hdead hx rec _ h =>
    obtain ⟨q, hq, hqpid, rfl, hnil⟩ := hv.waited hl hst
    have hqx : x = true := hx ⟨q, by simp [hq], hqpid, hdead q (by simp [hq]) rfl⟩
    have hdel : ({ v with waits := l ++ l' }.note (.deliver a .onVmExit p st v.serial)).Truthful :=
      hv.truthful.cons rfl trivial
    rw [← hqpid] at h
    refine h.manned hr ⟨?_, hnil⟩ (Truthful.of_log (hdel.cons_wait a q.pid hqx) rfl)
    show v.procs.filter _ = []
    simp [hq]
  | output | downIdle | reset | boot | reload => exact hv.of_same rfl ⟨rfl, rfl⟩ rfl rfl (hv.truthful.cons rfl trivial)
  | create hu =>
    exact .of_terminate rfl ⟨hu.procs, hu.waits⟩ (hv.truthful.of_log rfl)
  | schedule _ hst => exact hv.of_same rfl ⟨rfl, rfl⟩ rfl rfl (hv.truthful.arm _ _ _)
  | start _ hst h => exact h.manned hr (hv.vacant (.inr hst)) hv.truthful
  | stopFor _ hst hst' =>
    refine .of_active rfl (by rcases hst' with rfl | rfl | rfl <;> decide) (hact hst) (Truthful.setState ?_ _)
    exact hv.truthful.requestStop (hact hst) _ _
  | shutdown hst =>
    refine .of_active rfl (by decide) (hact hst) (Truthful.setState ?_ _)
    exact Truthful.requestStop (v := v.note (.down a _ v.timers)) (hv.truthful.cons rfl trivial) (hact hst) _ _
  | poweroff hst =>
    refine .of_active rfl (by decide) (hact hst) (Truthful.setState ?_ _)
    exact Truthful.poweroff (v := v.note (.down a _ v.timers)) (hv.truthful.cons rfl trivial) (hact hst)
  | terminating hst => exact hv.of_same rfl ⟨rfl, rfl⟩ rfl rfl (hv.truthful.requestStop (hact hst) _ _)
  | redirect _ hst h => exact hv.set_active hst h.ne_terminate.1 h.ne_terminate.2
  | drop _ hst => exact .of_gone rfl ⟨(hv.vacant (.inr hst)).1, rfl⟩ (hv.truthful.of_log rfl)

/-! ## Runs -/

variable {s : Daemon} {ok : Daemon → Input → Prop}

/-- The event that waits for a process is in the view of its VM. -/
theorem mem_waits {e : Event} (ha : s.Armed) (he : e ∈ s.eventList) (hf : e.filter = .proc)
    (hd : e.data = .vm a) : e.ident ∈ (s.view a).waits := by
  have harm : e.armed = true := by
    have := ha e he
    rwa [Event.blank_of_not_fd (by simp [hf]) (by simp [hf])] at this
  exact List.mem_map_of_mem (List.mem_filter.mpr ⟨he, Event.isWaitOf_iff.mpr ⟨hd, hf, harm⟩⟩)

/-- While the invariant holds, the exit callback of a VM reaps the process of that VM. -/
theorem not_steals {i : Input} (hw : WF s) (ha : s.Armed) (hm : ∀ a, (s.view a).Manned) : ¬s.steals i := by
  rintro ⟨e, hx, hcb, b, hd, p, hp, hpid, hpo⟩
  have he := mem_of_arrival hx
  have hwf := hw.events e he
  simp only [Event.wf, hcb] at hwf
  have hmem := mem_waits ha he hwf.1 hd
  have hsome := hw.eventVms e he b hd
  obtain ⟨v, hv⟩ := Option.isSome_iff_exists.mp hsome
  have hne : v.state ≠ .terminate := by
    intro hst
    have := ((hm b).vacant (.inr (by rw [view_state hv, hst]))).2
    rw [this] at hmem
    cases hmem
  obtain ⟨q, hq, ⟨hqpid, -⟩, -⟩ := (hm b).occupied _ (view_state hv) hne
  have hqm : q ∈ s.procs.filter (·.owner == b) := by
    show q ∈ (s.view b).procs
    rw [hq]
    exact List.mem_singleton_self q
  obtain ⟨hqm, hqo⟩ := List.mem_filter.mp hqm
  have : p = q := List.inj_on_of_nodup_map hw.pids hp hqm (by rw [hpid, hqpid, view_pid])
  exact hpo (this ▸ eq_of_beq hqo)

theorem reach_manned (hr : env.Reliable) (h : Reach (bmd env) ok s) (a : Addr) : (s.view a).Manned :=
  reach_life False (P := fun _ v => v.Manned)
    (fun _ => .of_gone rfl ⟨rfl, rfl⟩ ⟨fun _ _ _ _ h => (by cases h), fun _ _ _ _ h => (by cases h)⟩)
    (fun _ _ _ hv hl => hl.manned hr hv) (fun _ _ hw ha hm _ => not_steals hw ha hm) h a

/-! ## The invariant of the daemon -/

/-- The un-reaped children of the VM at `a`. -/
def Daemon.children (s : Daemon) (a : Addr) : List Proc := s.procs.filter (·.owner == a)

/-- The event is registered for the exit of `pid` and carries the entry at `a`. -/
def Event.isExitOf (a : Addr) (pid : Pid) (e : Event) : Bool := e.filter == .proc && e.ident == pid && e.data == .vm a

/-- The `EVFILT_PROC` events linked in `event_list` that are registered for `pid` and carry the entry at `a`. -/
def Daemon.exitEvents (s : Daemon) (a : Addr) (pid : Pid) : List Event := s.memory.linked.filter (·.isExitOf a pid)

/-- The VM has exactly one child, which is the process in its entry, and exactly one event for its exit. -/
def Daemon.Supervises (s : Daemon) (v : VmEntry) : Prop :=
  (∃ p, s.children v.addr = [p] ∧ p.pid = v.pid) ∧ ∃ e, s.exitEvents v.addr v.pid = [e]

theorem exitEvents_eq (hm : s.Mirrored) (ha : s.Armed) (a : Addr) (pid : Pid) :
    (s.exitEvents a pid).map Event.key =
      ((s.eventList.filter (·.isWaitOf a)).filter (·.ident == pid)).map Event.key := by
  have hkey : ∀ e e' : Event, e.key = e'.key → e.isExitOf a pid = e'.isExitOf a pid := by
    intro e e' h
    simp_all [Event.key, Event.isExitOf]
  rw [Daemon.exitEvents, map_filter_of_map hkey hm.linked, List.filter_filter]
  congr 1
  refine List.filter_congr fun e he => ?_
  have harm : e.filter = .proc → e.armed = true := fun hf => by
    have := ha e he
    rwa [Event.blank_of_not_fd (by simp [hf]) (by simp [hf])] at this
  rw [Bool.eq_iff_iff]
  simp only [Event.isExitOf, Event.isWaitOf, Bool.and_eq_true, beq_iff_eq]
  exact ⟨fun h => ⟨h.1.2, ⟨h.2, h.1.1⟩, harm h.1.1⟩, fun h => ⟨⟨h.2.1.2, h.1⟩, h.2.1.1⟩⟩

theorem View.Occupied.supervises {e : VmEntry} (hm : s.Mirrored) (ha : s.Armed) (he : s.vm? a = some e)
    (h : (s.view a).Occupied) : s.Supervises e := by
  obtain ⟨p, hp, ⟨hpid, -⟩, -, hw⟩ := h
  have hea : e.addr = a := Keyed.key_of_find? (k := VmEntry.addr) he
  have hpe : p.pid = e.pid := by rw [hpid, view_pid, vmOf_of_vm? he]
  refine ⟨⟨p, by rw [hea]; exact hp, hpe⟩, ?_⟩
  have hmap : (s.eventList.filter (·.isWaitOf a)).map (·.ident) = [p.pid] := hw
  obtain ⟨x, hx, hid⟩ := List.map_eq_singleton_iff.mp hmap
  have hkeys : (s.exitEvents e.addr e.pid).map Event.key = [x.key] := by
    rw [exitEvents_eq hm ha, hea, hx]
    simp [hid, hpe]
  obtain ⟨r, hr, -⟩ := List.map_eq_singleton_iff.mp hkeys
  exact ⟨r, hr⟩

end Bmd
