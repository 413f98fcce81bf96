import Bmd.Correctness.View

/-!
# `Correctness.Machine` — what the operations on a virtual machine do to its view

One specification for every function of `vm.c` and `bmd.c` that works on a VM: which of the frame relations
it keeps, and how the view of its VM changes. `Starts` and `Exits` say what `start_virtual_machine` and
`on_vm_exit` can do, all failures of the system included.
-/

namespace Bmd

open Lib Lib.Prog

variable {env : Env} {a : Addr} {s s' : Daemon} {u : Unit} {v : VmEntry} {r : Int} {pid : Pid} {f : VmEntry → VmEntry}
  {fn : Event → Bool} {kind : ProcKind} {x : Action} {c : Addr}

/-! ## Elementary changes of the state -/

theorem vm?_modVm (hf : ∀ v, (f v).addr = v.addr) : (s.modVm a f).vm? a = (s.vm? a).map f :=
  Keyed.find?_update_self (k := VmEntry.addr) hf s.vmList a

theorem modVm_grow (hf : ∀ v, (f v).link = v.link) : Grow a s (s.modVm a f) where
  links := by
    simp only [Daemon.links, Daemon.modVm, List.map_map]
    refine List.map_congr_left fun v _ => ?_
    have haddr : (f v).addr = v.addr := (congrArg VmEntry.addr (hf v) :)
    by_cases hv : v.addr = a <;> simp [hv, hf, haddr]
  next := Nat.le_refl _
  procs := rfl
  pids := id
  forced := rfl
  log := ⟨[], rfl, by simp⟩
  rest := rfl
  events := ⟨[], rfl, .nil⟩

theorem note_grow (hx : x.vm? = some a) (hc : x.isOutside = false) : Grow a s (s.note x) where
  links := rfl
  next := Nat.le_refl _
  procs := rfl
  pids := id
  forced := rfl
  log := ⟨[x], rfl, by simp [hx, hc]⟩
  rest := rfl
  events := ⟨[], rfl, .nil⟩

theorem view_modVm (hv : s.vm? a = some v)
    (hf : ∀ v, (f v).addr = v.addr) :
    (s.modVm a f).view a =
      { s.view a with state := some (f v).state, pid := (f v).pid, serial := (f v).serial } := by
  have h1 : (s.modVm a f).vm? a = some (f v) := by rw [vm?_modVm hf, hv]; rfl
  simp only [Daemon.view, Daemon.vmOf, h1]
  rfl

theorem view_note (hx : x.vm? = some a) : (s.note x).view a = (s.view a).note x := by
  have habout : x.about a = true := by simp [Action.about, hx]
  simp only [Daemon.view, View.note, Daemon.note, List.filter_cons, habout, if_true]
  rfl

theorem isChild_view (pid : Pid) : (s.view a).isChild pid = s.isChild a pid := by
  simp only [View.isChild, Daemon.view, Daemon.isChild, List.any_filter]

theorem view_state (hv : s.vm? a = some v) : (s.view a).state = some v.state := by
  simp [Daemon.view, hv]

theorem vmOf_of_vm? (hv : s.vm? a = some v) : s.vmOf a = v := by simp [Daemon.vmOf, hv]

theorem view_pid : (s.view a).pid = (s.vmOf a).pid := rfl

theorem view_serial : (s.view a).serial = (s.vmOf a).serial := rfl

theorem getVm_ok (h : getVm a s = .ok (v, s')) : s.vmOf a = v ∧ s = s' := by
  cases h
  exact ⟨rfl, rfl⟩

theorem getVmConf_ok {c : VmConf} (h : getVmConf a s = .ok (c, s')) : s.vmConf a = c ∧ s = s' := by
  cases h
  exact ⟨rfl, rfl⟩

theorem getVm_bind {α : Type} {f : VmEntry → Prog α} {x : α} (h : (getVm a >>= f) s = .ok (x, s')) :
    f (s.vmOf a) s = .ok (x, s') := h

theorem getVmConf_bind {α : Type} {f : VmConf → Prog α} {x : α} (h : (getVmConf a >>= f) s = .ok (x, s')) :
    f (s.vmConf a) s = .ok (x, s') := h

/-! ## State, signals, processes -/

theorem setState_spec {st : State} (hv : (s.vm? a).isSome)
    (h : setState a st s = .ok (u, s')) : Grow a s s' ∧ s'.view a = (s.view a).setState a st := by
  obtain ⟨v, hv⟩ := Option.isSome_iff_exists.mp hv
  rw [of_modify h, hv]
  dsimp only
  have g : Grow a s (s.modVm a ({ · with state := st })) := modVm_grow fun _ => rfl
  have e : (s.modVm a ({ · with state := st })).view a = _ := view_modVm hv fun _ => rfl
  refine ⟨g.trans (note_grow rfl rfl), ?_⟩
  rw [view_note rfl, e]
  simp only [View.note, View.setState, view_state hv, view_pid, view_serial, vmOf_of_vm? hv]
  rfl

theorem note_spec (hx : x.vm? = some a) (hc : x.isOutside = false)
    (h : Bmd.note x s = .ok (u, s')) : Grow a s s' ∧ s'.view a = (s.view a).note x := by
  rw [of_modify h]
  exact ⟨note_grow hx hc, view_note hx⟩

theorem kill_spec {sig : Signal} (h : kill a pid sig s = .ok (u, s')) :
    Grow a s s' ∧ s'.view a = (s.view a).note (.kill a pid sig ((s.view a).isChild pid)) := by
  rw [of_modify h, isChild_view]
  exact ⟨note_grow rfl rfl, view_note rfl⟩

theorem acpiPoweroffBhyve_spec (h : acpiPoweroffBhyve a s = .ok (u, s')) :
    Grow a s s' ∧ s'.view a = (s.view a).acpiPoweroff a := by
  replace h := getVm_bind h
  obtain ⟨_, s2, h2, h⟩ := of_bind h
  obtain ⟨g2, e2⟩ := note_spec (a := a) rfl rfl h2
  obtain ⟨g3, e3⟩ := kill_spec h
  exact ⟨g2.trans g3, by rw [e3, e2]; rfl⟩

theorem recordForced_spec {w : View} {opened : Bool} (hv : s.vm? a = some v)
    (he : s.view a = w.note x) (hx : s.log.head? = some x) (h : recordForced a opened s = .ok (u, s')) :
    Grow a s s' ∧ s'.view a = { w.note x with
      forced := ⟨a, v.state, w.procs.filter (·.status == none), opened, some x⟩ :: w.forced } := by
  have hprocs : s.procs.filter (·.owner == a) = w.procs := (congrArg View.procs he :)
  have hforced : s.forced.filter (·.vm == a) = w.forced := (congrArg View.forced he :)
  have hchildren : (s.procs.filter fun p => p.owner == a && p.status == none) = w.procs.filter (·.status == none) := by
    rw [← hprocs, List.filter_filter]
    exact List.filter_congr fun p _ => Bool.and_comm _ _
  have hrec : s.forcing a opened = ⟨a, v.state, w.procs.filter (·.status == none), opened, some x⟩ := by
    rw [Daemon.forcing, hx, hchildren, vmOf_of_vm? hv]
  rw [of_modify h, hrec]
  constructor
  · exact ⟨⟨rfl, Nat.le_refl _, rfl, id, by simp, [], rfl, by simp⟩, rfl, [], rfl, .nil⟩
  · rw [← he, ← hforced]
    simp only [Daemon.view, List.filter_cons, beq_self_eq_true, if_true]
    rfl

theorem suspendBhyve_spec {how : SuspendHow} {opened : Bool} (h : suspendBhyve env a how s = .ok (opened, s')) :
    s' = { s with tick := s.tick + 1 }.note (.suspend a how opened) ∧ Grow a s s' ∧
      s'.view a = (s.view a).note (.suspend a how opened) := by
  obtain ⟨r, s1, h1, h⟩ := of_bind h
  cases h1
  obtain ⟨_, s2, h2, h⟩ := of_bind h
  obtain ⟨rfl, rfl⟩ := pure_ok.mp h
  obtain ⟨g, e⟩ := note_spec (a := a) rfl rfl h2
  have hask : Grow a s { s with tick := s.tick + 1 } :=
    ⟨⟨rfl, Nat.le_refl _, rfl, id, rfl, [], rfl, by simp⟩, rfl, [], rfl, .nil⟩
  exact ⟨of_modify h2, hask.trans g, e⟩

theorem poweroffBhyve_spec (hv : (s.vm? a).isSome) (h : poweroffBhyve env a s = .ok (u, s')) :
    Grow a s s' ∧ s'.procs = s.procs ∧ ∃ opened, s'.view a = (s.view a).poweroff a opened := by
  obtain ⟨v, hv⟩ := Option.isSome_iff_exists.mp hv
  replace h := getVm_bind h
  obtain ⟨_, s2, h2, h⟩ := of_bind h
  obtain ⟨g2, e2⟩ := note_spec (a := a) rfl rfl h2
  have hv2 : s2.vm? a = some v := by
    rw [of_modify h2]
    exact hv
  rw [vmOf_of_vm? hv] at h
  have hst := view_state hv
  by_cases hl : v.state = .load
  · rw [if_pos hl] at h
    obtain ⟨_, s3, h3, h⟩ := of_bind h
    obtain ⟨g3, e3⟩ := kill_spec h3
    have hs3 := of_modify h3
    obtain ⟨g4, e4⟩ := recordForced_spec (by rw [hs3]; exact hv2) e3 (by rw [hs3, ← isChild_view]; rfl) h
    refine ⟨(g2.trans g3).trans g4, by rw [of_modify h, hs3, of_modify h2]; rfl, true, ?_⟩
    rw [e4, e2]
    simp only [View.poweroff, View.force, View.forcing, hst, hl, if_true, decide_true, Bool.true_or, view_pid, view_serial,
      vmOf_of_vm? hv]
    rfl
  · rw [if_neg hl] at h
    obtain ⟨opened, s3, h3, h⟩ := of_bind h
    obtain ⟨hs3, g3, e3⟩ := suspendBhyve_spec h3
    obtain ⟨g4, e4⟩ := recordForced_spec (by rw [hs3]; exact hv2) e3 (by rw [hs3]; rfl) h
    refine ⟨(g2.trans g3).trans g4, by rw [of_modify h, hs3, of_modify h2]; rfl, opened, ?_⟩
    rw [e4, e2]
    simp only [View.poweroff, View.force, View.forcing, hst, Option.some.injEq, hl, if_false, decide_false,
      Bool.false_or, view_serial, vmOf_of_vm? hv]
    rfl

/-- **`fork`.** The child is new: its pid is not in use and its serial is a new number. -/
theorem fork_spec {r : Option (Pid × Nat)} (h : fork env a kind s = .ok (r, s')) :
    (r = none ∧ Silent a s s' ∧ ¬env.Reliable) ∨
      ∃ p : Proc, r = some (p.pid, p.serial) ∧ p.owner = a ∧ p.kind = kind ∧ (p.status = none ∧ 0 < p.pid) ∧
        p.serial = s.next ∧ s.next < s'.next ∧ p.pid ∉ s.procs.map (·.pid) ∧ s'.procs = p :: s.procs ∧
        s'.vmList = s.vmList ∧ Grow a s s' ∧
        s'.view a = { s.view a with
          procs := p :: (s.view a).procs, log := .spawn a p.serial p.kind :: (s.view a).log } := by
  replace h := get_bind h
  cases hf : env.fork s.tick (s.procs.map (·.pid)) with
  | none =>
    rw [hf] at h
    cases h
    refine .inl ⟨rfl, ⟨rfl, Nat.le_refl _⟩, fun hr => ?_⟩
    have hsome := hr.fork s.tick (s.procs.map (·.pid))
    rw [hf] at hsome
    cases hsome
  | some pid =>
    rw [hf] at h
    cases h
    obtain ⟨hpos, hfresh⟩ := env.forkFresh _ _ _ hf
    refine .inr ⟨_, rfl, rfl, rfl, ⟨rfl, hpos⟩, rfl, Nat.lt_succ_self _, hfresh, rfl, rfl, ?_, ?_⟩
    · refine ⟨⟨rfl, Nat.le_succ _, ?_, ?_, rfl, ⟨[_], rfl, ?_⟩⟩, rfl, [], rfl, .nil⟩
      · simp
      · intro hnd
        simpa using ⟨by simpa using hfresh, hnd⟩
      · simp [Action.vm?, Action.isOutside, Action.isCommand]
    · simp [Daemon.view, Action.about, Action.vm?]
      exact ⟨rfl, rfl, rfl, rfl⟩

theorem setPid_spec {serial : Nat} (hv : (s.vm? a).isSome)
    (h : setPid a pid serial s = .ok (u, s')) :
    Grow a s s' ∧ s'.view a = { s.view a with pid := pid, serial := serial } := by
  obtain ⟨v, hv⟩ := Option.isSome_iff_exists.mp hv
  rw [of_modify h]
  have e : (s.modVm a ({ · with pid := pid, serial := serial })).view a = _ := view_modVm hv fun _ => rfl
  refine ⟨modVm_grow fun _ => rfl, ?_⟩
  rw [e, ← view_state hv]

/-! ## Timers and exit notifications -/

/-- Registering an event for the VM. -/
theorem register_spec {k : Kev} {cb : Callback} {purpose : Option Purpose}
    (h : registerEvent env k cb (.vm a) purpose s = .ok (r, s'))
    (hwf : (mkEvent 0 .event k cb (.vm a) purpose).wf) :
    Grow a s s' ∧
      ((r = -1 ∧ s'.view a = s.view a ∧ (env.Registers → k.invalid = true)) ∨
       (r = 0 ∧ k.invalid = false ∧ s'.view a = { s.view a with
          timers := if k.filter = .timer then purpose :: (s.view a).timers else (s.view a).timers
          waits := if k.filter = .proc then k.ident :: (s.view a).waits else (s.view a).waits })) := by
  have hadds : Adds (fun e => e.data = .vm a ∧ e.wf ∧ e.armed = true) s s' :=
    registerEvent0_adds (fun addr => ⟨rfl, hwf, rfl⟩) _ _ _ h
  refine ⟨hadds.grow fun _ he => he, ?_⟩
  obtain ⟨hrest, -, ⟨hr, hev, hrel⟩ | ⟨hr, hev, -, hinv⟩⟩ := registerEvent0_spec h
  all_goals
    have hseen : s'.seen = s.seen := (congrArg Daemon.seen hrest :)
    simp only [Daemon.seen, Prod.mk.injEq] at hseen
  · refine .inl ⟨hr, ?_, hrel⟩
    simp only [Daemon.view, Daemon.vm?, Daemon.vmOf, Daemon.timersOf, hseen, hev]
  · refine .inr ⟨hr, hinv, ?_⟩
    simp only [Daemon.view, Daemon.vm?, Daemon.vmOf, Daemon.timersOf, hseen, hev, mkEvent]
    by_cases ht : k.filter = .timer <;> by_cases hp : k.filter = .proc <;>
      simp_all [Event.isTimerOf, Event.isWaitOf]

/-- **`set_timer`.** -/
theorem setTimer_spec {p : Purpose} {second : Int}
    (h : setTimer env a p second s = .ok (r, s')) :
    Grow a s s' ∧ ∃ ok, s'.view a = (s.view a).arm a p second ok ∧ (r < 0 ↔ ok = false) ∧
      (env.Reliable → 0 ≤ second → ok = true) := by
  obtain ⟨_, s1, h1, h⟩ := of_bind h
  have hs1 := of_modify h1
  replace h := get_bind h
  have g1 : Grow a s s1 := by
    rw [hs1]
    exact ⟨⟨rfl, Nat.le_refl _, rfl, id, rfl, [_], rfl, by simp [Action.vm?, Action.isOutside, Action.isCommand]⟩, rfl, [], rfl, .nil⟩
  have e1 : s1.view a = (s.view a).note (.arm a p second) := by
    rw [hs1, ← view_note rfl]
    rfl
  obtain ⟨g2, ⟨hr, e2, hrel⟩ | ⟨hr, -, e2⟩⟩ := register_spec h ⟨rfl, rfl, rfl, a, rfl⟩
  · refine ⟨g1.trans g2, false, by rw [e2, e1]; rfl, by simp [hr], fun hrl h0 => ?_⟩
    have := hrel hrl.toRegisters
    simp [Kev.invalid] at this
    omega
  · exact ⟨g1.trans g2, true, by rw [e2, e1]; rfl, by simp [hr], fun _ _ => rfl⟩

theorem waitForVm_spec (h : waitForVm env a pid s = .ok (r, s')) :
    Grow a s s' ∧ ((r < 0 ∧ s'.view a = s.view a ∧ ¬env.Registers) ∨
      (0 ≤ r ∧ s'.view a = (s.view a).wait pid)) := by
  obtain ⟨g, ⟨hr, e, hrel⟩ | ⟨hr, -, e⟩⟩ := register_spec h ⟨rfl, rfl, rfl, a, rfl⟩
  · exact ⟨g, .inl ⟨by omega, e, fun hrl => by have := hrel hrl; simp [Kev.invalid] at this⟩⟩
  · exact ⟨g, .inr ⟨by omega, e⟩⟩

/-- Events on descriptors are in no view. -/
theorem Adds.view {P : Event → Prop} (hP : ∀ e, P e → e.filter ≠ .timer ∧ e.filter ≠ .proc)
    (h : Adds P s s') : s'.view a = s.view a := by
  obtain ⟨new, hnew, -, hmem⟩ := h.events
  have ht : new.filter (·.isTimerOf a) = [] := List.filter_eq_nil_iff.mpr fun e he h' =>
    (hP e (hmem e he).1).1 (Event.isTimerOf_iff.mp h').2.1
  have hw : new.filter (·.isWaitOf a) = [] := List.filter_eq_nil_iff.mpr fun e he h' =>
    (hP e (hmem e he).1).2 (Event.isWaitOf_iff.mp h').2.1
  refine view_of_seen (congrArg Daemon.seen h.rest :) ?_ ?_
  · simp only [Daemon.timersOf, hnew, List.filter_append, ht, List.nil_append]
  · simp only [Daemon.view, hnew, List.filter_append, hw, List.nil_append]

theorem waitForVmOutput_spec (hva : v.addr = a)
    (h : waitForVmOutput env v s = .ok (r, s')) :
    Grow a s s' ∧ s'.view a = s.view a ∧ (env.Registers → 0 ≤ r) := by
  subst hva
  have hadds : Adds (fun e => (e.data = .vm v.addr ∧ e.wf ∧ e.armed = true) ∧ e.filter = .read) s s' := by
    refine registerEvents_adds (fun x hx addr => ?_) _ _ _ h
    obtain ⟨fd, -, rfl⟩ := List.mem_map.mp hx
    exact ⟨⟨rfl, ⟨rfl, rfl, rfl, v.addr, rfl⟩, rfl⟩, rfl⟩
  refine ⟨hadds.grow fun _ he => he.1, hadds.view fun e he => by simp [he.2], fun hr => ?_⟩
  have := registerEvents_reliable hr (fun x hx => ?_) h
  · omega
  · obtain ⟨fd, -, rfl⟩ := List.mem_map.mp hx
    rfl

/-! ## Starting -/

theorem cleanupVirtualMachine_spec (hv : (s.vm? a).isSome)
    (h : cleanupVirtualMachine env a s = .ok (u, s')) :
    Grow a s s' ∧ s'.view a = (s.view a).setState a .terminate := by
  obtain ⟨_, s1, h1, h⟩ := of_bind h
  have q1 := preserved (R := Silent a) h1
  obtain ⟨_, s2, h2, h⟩ := of_bind h
  have q2 := trans_of (Silent a) q1 (preserved h2)
  obtain ⟨g, e⟩ := setState_spec (q2.touch.isSome hv) h
  exact ⟨q2.grow.trans g, by rw [e, q2.view]⟩

/-- The VM at `a` got a new process and went to state `st`. -/
def Spawned (a : Addr) (st : State) (kind : ProcKind) (s s' : Daemon) : Prop :=
  ∃ p : Proc, p.owner = a ∧ p.kind = kind ∧ (p.status = none ∧ 0 < p.pid) ∧ s.next ≤ p.serial ∧ p.serial < s'.next ∧
    p.pid ∉ s.procs.map (·.pid) ∧ s'.procs = p :: s.procs ∧ Grow a s s' ∧
    s'.view a = ((s.view a).spawn a p).setState a st

theorem Silent.procs {b : Addr} (h : Silent b s s') : s'.procs = s.procs := (congrArg Daemon.procs h.1 :)

theorem Spawned.of_silent {st : State} {t t' : Daemon} (q : Silent a s t)
    (h : Spawned a st kind t t') (q' : Silent a t' s') : Spawned a st kind s s' := by
  obtain ⟨p, ho, hk, hst, hlo, hhi, hpid, hprocs, g, e⟩ := h
  refine ⟨p, ho, hk, hst, Nat.le_trans q.2 hlo, Nat.lt_of_lt_of_le hhi q'.2, ?_, ?_, ?_, ?_⟩
  · rwa [← q.procs]
  · rw [q'.procs, hprocs, q.procs]
  · exact (q.grow.trans g).trans q'.grow
  · rw [q'.view, e, q.view]

/-- `fork`, with the bookkeeping of the parent. -/
theorem spawn_spec {st : State} {serial : Nat} {u u' : Unit}
    {s1 s2 s3 : Daemon} (hv : (s.vm? a).isSome) (h1 : fork env a kind s = .ok (some (pid, serial), s1))
    (q : Silent a s1 s2) (h2 : setPid a pid serial s2 = .ok (u, s3))
    (h3 : setState a st s3 = .ok (u', s')) : Spawned a st kind s s' := by
  rcases fork_spec h1 with ⟨hn, -⟩ | ⟨p, hp, ho, hk, hst, hser, hnext, hpid, hprocs, -, g1, e1⟩
  · cases hn
  cases hp
  have hv2 : (s2.vm? a).isSome := q.touch.isSome (g1.isSome hv)
  obtain ⟨g2, e2⟩ := setPid_spec hv2 h2
  obtain ⟨g3, e3⟩ := setState_spec (g2.isSome hv2) h3
  have hp2 : s3.procs = s2.procs := by rw [of_modify h2]; rfl
  have hp3 : s'.procs = s3.procs := by
    rw [of_modify h3]
    cases s3.vm? a <;> rfl
  refine ⟨p, ho, hk, hst, Nat.le_of_eq hser.symm, ?_, hpid, ?_, ((g1.trans q.grow).trans g2).trans g3, ?_⟩
  · have h4 := q.2
    have h5 := g2.next
    have h6 := g3.next
    omega
  · rw [hp3, hp2, q.procs, hprocs]
  · rw [e3, e2, q.view, e1]
    rfl

theorem bhyveLoad_spec (hv : (s.vm? a).isSome) (h : bhyveLoad env a s = .ok (r, s')) :
    (r < 0 ∧ Silent a s s') ∨ (0 ≤ r ∧ Spawned a .load .loader s s') := by
  replace h := getVm_bind h
  obtain ⟨pipes, s2, h2, h⟩ := of_bind h
  have q2 := preserved (R := Silent a) h2
  cases pipes with
  | none => cases h; exact .inl ⟨by decide, q2⟩
  | some pipes =>
    obtain ⟨r', s3, h3, h⟩ := of_bind h
    cases r' with
    | none =>
      rcases fork_spec h3 with ⟨-, q3, -⟩ | ⟨p, hp, -⟩
      · obtain ⟨_, s4, h4, h⟩ := of_bind h
        have q4 := preserved (R := Silent a) h4
        cases h
        exact .inl ⟨by decide, trans_of (Silent a) q2 (trans_of (Silent a) q3 q4)⟩
      · cases hp
    | some ps =>
      obtain ⟨_, s4, h4, h⟩ := of_bind h
      have q4 := preserved (R := Silent a) h4
      obtain ⟨_, s5, h5, h⟩ := of_bind h
      obtain ⟨_, s6, h6, h⟩ := of_bind h
      cases h
      have sp := spawn_spec (q2.touch.isSome hv) h3 q4 h5 h6
      exact .inr ⟨by decide, sp.of_silent q2 (refl_of (Silent a) _)⟩

theorem execBhyve_spec (hv : (s.vm? a).isSome) (h : execBhyve env a s = .ok (r, s')) :
    (r < 0 ∧ Silent a s s') ∨ (0 ≤ r ∧ Spawned a .run .bhyve s s') := by
  replace h := getVm_bind h
  obtain ⟨pipes, s2, h2, h⟩ := of_bind h
  have q2 := preserved (R := Silent a) h2
  cases pipes with
  | none =>
    cases h
    exact .inl ⟨by decide, q2⟩
  | some pipes =>
    obtain ⟨r', s3, h3, h⟩ := of_bind h
    cases r' with
    | none => exact (throw_ok.mp h).elim
    | some ps =>
      obtain ⟨_, s4, h4, h⟩ := of_bind h
      have q4 := preserved (R := Silent a) h4
      obtain ⟨_, s5, h5, h⟩ := of_bind h
      obtain ⟨_, s6, h6, h⟩ := of_bind h
      cases h
      have sp := spawn_spec (q2.touch.isSome hv) h3 q4 h5 h6
      exact .inr ⟨by decide, sp.of_silent q2 (refl_of (Silent a) _)⟩

theorem grubLoad_spec (hv : (s.vm? a).isSome) (h : grubLoad env a s = .ok (r, s')) :
    (r < 0 ∧ Silent a s s') ∨ (0 ≤ r ∧ Spawned a .load .loader s s') := by
  replace h := getVmConf_bind h
  obtain ⟨cmd, s2, h2, h⟩ := of_bind h
  have q2 := preserved (R := Silent a) h2
  obtain ⟨ifd, s3, h3, h⟩ := of_bind h
  have q3 := trans_of (Silent a) q2 (preserved h3)
  cases ifd with
  | none => cases h; exact .inl ⟨by decide, q3⟩
  | some ifd =>
    obtain ⟨r', s4, h4, h⟩ := of_bind h
    cases r' with
    | none =>
      rcases fork_spec h4 with ⟨-, q4, -⟩ | ⟨p, hp, -⟩
      · cases h
        exact .inl ⟨by decide, trans_of (Silent a) q3 q4⟩
      · cases hp
    | some ps =>
      obtain ⟨_, s5, h5, h⟩ := of_bind h
      obtain ⟨_, s6, h6, h⟩ := of_bind h
      obtain ⟨_, s7, h7, h⟩ := of_bind h
      have q7 := preserved (R := Silent a) h7
      obtain ⟨_, s8, h8, h⟩ := of_bind h
      have q8 : Silent a s7 s8 := modVm_written .wires h8 fun _ => rfl
      cases h
      have sp := spawn_spec (q3.touch.isSome hv) h4 (refl_of (Silent a) s4) h5 h6
      exact .inr ⟨by decide, sp.of_silent q3 (trans_of (Silent a) q7 q8)⟩

/-- **Where a call of `start_bhyve` ends up**: `t` is the state when the map file or the variables are in place. -/
theorem startBhyve_cases (h : startBhyve env a s = .ok (r, s')) :
    ∃ t, (t = s ∨ (∃ x, writeMapfile env a s = .ok (x, t)) ∨ ∃ x, copyUefiVars env a s = .ok (x, t)) ∧
      ((r = -1 ∧ s' = t) ∨ execBhyve env a t = .ok (r, s') ∨
        ((s.vmOf a).state ≠ .load ∧ (bhyveLoad env a t = .ok (r, s') ∨ grubLoad env a t = .ok (r, s')))) := by
  replace h := getVm_bind h
  split at h
  · exact ⟨s, .inl rfl, .inr (.inl h)⟩
  next hl =>
  replace h := getVmConf_bind h
  cases hk : (s.vmConf a).loaderKind with
  | bhyveload =>
    rw [hk] at h
    exact ⟨s, .inl rfl, .inr (.inr ⟨hl, .inl h⟩)⟩
  | grub =>
    rw [hk] at h
    obtain ⟨x, t, h1, h⟩ := of_bind h
    refine ⟨t, .inr (.inl ⟨x, h1⟩), ?_⟩
    split at h
    · cases h
      exact .inl ⟨rfl, rfl⟩
    · exact .inr (.inr ⟨hl, .inr h⟩)
  | uefi =>
    rw [hk] at h
    obtain ⟨x, t, h1, h⟩ := of_bind h
    refine ⟨t, .inr (.inr ⟨x, h1⟩), ?_⟩
    split at h
    · cases h
      exact .inl ⟨rfl, rfl⟩
    · exact .inr (.inl h)
  | csm =>
    rw [hk] at h
    exact ⟨s, .inl rfl, .inr (.inl h)⟩
  | unknown =>
    rw [hk] at h
    cases h
    exact ⟨s, .inl rfl, .inl ⟨rfl, rfl⟩⟩

/-- **`start_bhyve`.** It leaves the VM as it was, or with a new process: the loader, or `bhyve` itself. -/
theorem startBhyve_spec (hv : s.vm? a = some v)
    (h : startBhyve env a s = .ok (r, s')) :
    (r < 0 ∧ Silent a s s') ∨
      (0 ≤ r ∧ (Spawned a .run .bhyve s s' ∨ (v.state ≠ .load ∧ Spawned a .load .loader s s'))) := by
  obtain ⟨t, hprep, hcase⟩ := startBhyve_cases h
  rw [vmOf_of_vm? hv] at hcase
  have q : Silent a s t := by
    obtain rfl | ⟨x, hx⟩ | ⟨x, hx⟩ := hprep
    · exact refl_of (Silent a) _
    · exact preserved hx
    · exact preserved hx
  have hsome : (t.vm? a).isSome := q.touch.isSome (by rw [hv]; rfl)
  obtain ⟨rfl, rfl⟩ | h | ⟨hl, h | h⟩ := hcase
  · exact .inl ⟨by decide, q⟩
  · exact (execBhyve_spec hsome h).imp (fun h => ⟨h.1, trans_of (Silent a) q h.2⟩)
      fun h => ⟨h.1, .inl (h.2.of_silent q (refl_of (Silent a) _))⟩
  · exact (bhyveLoad_spec hsome h).imp (fun h => ⟨h.1, trans_of (Silent a) q h.2⟩)
      fun h => ⟨h.1, .inr ⟨hl, h.2.of_silent q (refl_of (Silent a) _)⟩⟩
  · exact (grubLoad_spec hsome h).imp (fun h => ⟨h.1, trans_of (Silent a) q h.2⟩)
      fun h => ⟨h.1, .inr ⟨hl, h.2.of_silent q (refl_of (Silent a) _)⟩⟩

/-! ## Supervising the new process -/

/-- Every process with the pid is a child of the VM at `a`. -/
def Daemon.OwnPid (s : Daemon) (a : Addr) (pid : Pid) : Prop := ∀ p ∈ s.procs, p.pid = pid → p.owner = a

/-- A guarded `throw` that lets the program continue did nothing. -/
theorem of_whenever_throw {c : Bool} {e : Halt} (h : whenever c (throw e) s = .ok (u, s')) : s' = s := by
  cases c <;> cases h
  rfl

/-- **`waitpid`.** In every view the children with the pid are gone. -/
theorem waitpid_spec {x : Nat} {killed : Bool} (h : waitpid env pid killed s = .ok (x, s')) :
    s' = { s with tick := s.tick + 1, procs := s.procs.filter (·.pid != pid) } ∧
      ∀ b, s'.view b = (s.view b).reap pid := by
  replace h := get_bind h
  obtain ⟨unset, s2, h2, h⟩ := of_bind h
  cases h2
  obtain ⟨_, s1, h1, h⟩ := of_bind h
  rw [of_whenever_throw h1] at h
  obtain ⟨_, s3, h3, h⟩ := of_bind h
  have hs3 := of_modify h3
  have hs' : s' = s3 := by
    cases hp : s.procs.find? (·.pid == pid) with
    | none | some => rw [hp] at h; exact (pure_ok.mp h).2.symm
  rw [hs', hs3]
  refine ⟨rfl, fun b => ?_⟩
  simp only [Daemon.view, View.reap, List.filter_filter, Bool.and_comm]
  rfl

/-- Reaping a child of the VM touches no other VM. -/
theorem waitpid_grow {x : Nat} {killed : Bool} (hown : s.OwnPid a pid) (h : waitpid env pid killed s = .ok (x, s')) :
    Grow a s s' := by
  obtain ⟨rfl, -⟩ := waitpid_spec h
  refine ⟨⟨rfl, Nat.le_refl _, ?_, ?_, rfl, [], rfl, by simp⟩, rfl, [], rfl, .nil⟩
  · show (s.procs.filter (·.pid != pid)).filter (·.owner != a) = s.procs.filter (·.owner != a)
    rw [List.filter_filter]
    refine List.filter_congr fun p hp => ?_
    by_cases hpid : p.pid = pid
    · simp [hown p hp hpid]
    · simp [hpid]
  · intro hnd
    exact hnd.sublist (List.filter_sublist.map _)

theorem OwnPid.of_grow (h : s'.procs = s.procs) (hown : s.OwnPid a pid) : s'.OwnPid a pid := by
  intro p hp
  exact hown p (h ▸ hp)

/-- Wait for the exit if the notification could be registered. -/
def View.waitIf (v : View) (w : Bool) (pid : Pid) : View := if w then v.wait pid else v

theorem waitForProcess_spec {r : Bool} (hv : (s.vm? a).isSome) (h : waitForProcess env a s = .ok (r, s')) :
    Grow a s s' ∧ s'.procs = s.procs ∧
      ∃ w, s'.view a = (s.view a).waitIf w (s.view a).pid ∧ (r = true → w = true) ∧
        (r = false → ¬env.Registers) := by
  obtain ⟨v, hv⟩ := Option.isSome_iff_exists.mp hv
  have hva : v.addr = a := Keyed.key_of_find? (k := VmEntry.addr) hv
  replace h := getVm_bind h
  rw [vmOf_of_vm? hv] at h
  obtain ⟨r1, s2, h2, h⟩ := of_bind h
  have hp2 : s2.procs = s.procs := (congrArg Daemon.procs (registerEvent0_spec h2).1 :)
  have hpid : v.pid = (s.view a).pid := by rw [view_pid, vmOf_of_vm? hv]
  obtain ⟨g2, ⟨hr1, e2, hnr⟩ | ⟨hr1, e2⟩⟩ := waitForVm_spec h2
  · rw [if_pos hr1] at h
    cases h
    exact ⟨g2, hp2, false, e2, by simp, fun _ => hnr⟩
  · rw [if_neg (by omega)] at h
    obtain ⟨r2, s3, h3, h⟩ := of_bind h
    obtain ⟨rfl, rfl⟩ := pure_ok.mp h
    obtain ⟨g3, e3, hrel⟩ := waitForVmOutput_spec hva h3
    have hp3 : s3.procs = s2.procs := by
      have hadds : Adds (fun _ => True) s2 s3 := registerEvents_adds (by simp) _ _ _ h3
      exact (congrArg Daemon.procs hadds.rest :)
    refine ⟨g2.trans g3, hp3.trans hp2, true, ?_, by simp, ?_⟩
    · rw [e3, e2, hpid]; rfl
    · intro hr hrl
      have := hrel hrl
      simp at hr
      omega

theorem abandonProcess_spec (hv : (s.vm? a).isSome) (hown : s.OwnPid a (s.view a).pid)
    (h : abandonProcess env a s = .ok (u, s')) :
    Grow a s s' ∧
      ∃ opened, s'.view a = (((s.view a).poweroff a opened).reap (s.view a).pid).setState a .terminate := by
  obtain ⟨_, s1, h1, h⟩ := of_bind h
  obtain ⟨g1, hprocs, opened, e1⟩ := poweroffBhyve_spec hv h1
  replace h := getVm_bind h
  obtain ⟨x, s3, h3, h⟩ := of_bind h
  have hpid : (s1.vmOf a).pid = (s.view a).pid := by
    rw [← view_pid, e1]
    rfl
  rw [hpid] at h3
  have g3 := waitpid_grow (OwnPid.of_grow hprocs hown) h3
  have e3 := (waitpid_spec h3).2 a
  obtain ⟨g4, e4⟩ := cleanupVirtualMachine_spec (g3.isSome (g1.isSome hv)) h
  exact ⟨(g1.trans g3).trans g4, opened, by rw [e4, e3, e1]⟩

theorem setLoaderTimer_spec {conf : VmConf} (hv : s.vm? a = some v)
    (h : setLoaderTimer env a conf s = .ok (r, s')) :
    Grow a s s' ∧ ((0 ≤ r ∧ s' = s) ∨
      (v.state = .load ∧ ∃ t ok, 0 < t ∧ (env.Reliable → ok = true) ∧
        s'.view a = (s.view a).arm a (.loader v.serial) t ok)) := by
  replace h := getVm_bind h
  rw [vmOf_of_vm? hv] at h
  split at h
  · next hc =>
    obtain ⟨g, ok, e, -, hrel⟩ := setTimer_spec h
    exact ⟨g, .inr ⟨hc.1, _, ok, hc.2, fun hr => hrel hr (Int.le_of_lt hc.2), e⟩⟩
  · cases h
    exact ⟨refl_of (Grow a) _, .inl ⟨by decide, rfl⟩⟩

/-- What `start_virtual_machine` does to a VM whose process exists. -/
inductive Supervised (env : Env) (a : Addr) : View → View → Prop where
  | waiting {v : View} : Supervised env a v (v.wait v.pid)
  | timed {v : View} {t : Int} {ok : Bool} (hst : v.state = some .load) (ht : 0 < t)
      (hok : env.Reliable → ok = true) : Supervised env a v ((v.wait v.pid).arm a (.loader v.serial) t ok)
  | abandoned {v : View} {w opened : Bool} (h : ¬env.Registers) :
      Supervised env a v ((((v.waitIf w v.pid).poweroff a opened).reap v.pid).setState a .terminate)

theorem superviseProcess_spec (hv : (s.vm? a).isSome) (hown : s.OwnPid a (s.view a).pid)
    (h : superviseProcess env a s = .ok (r, s')) :
    Grow a s s' ∧ Supervised env a (s.view a) (s'.view a) := by
  obtain ⟨ok, s1, h1, h⟩ := of_bind h
  obtain ⟨g1, hp1, w, e1, hw, hnr⟩ := waitForProcess_spec hv h1
  have hv1 := g1.isSome hv
  cases ok with
  | false =>
    obtain ⟨_, s2, h2, h⟩ := of_bind h
    cases h
    have hpid : (s1.view a).pid = (s.view a).pid := by rw [e1]; cases w <;> rfl
    obtain ⟨g2, opened, e2⟩ := abandonProcess_spec hv1 (by rw [hpid]; exact OwnPid.of_grow hp1 hown) h2
    refine ⟨g1.trans g2, ?_⟩
    rw [e2, hpid, e1]
    exact .abandoned (hnr rfl)
  | true =>
    obtain ⟨v1, hv1'⟩ := Option.isSome_iff_exists.mp hv1
    replace h := getVmConf_bind h
    obtain ⟨r3, s3, h3, h⟩ := of_bind h
    obtain ⟨g3, hres⟩ := setLoaderTimer_spec hv1' h3
    have e1' : s1.view a = (s.view a).wait (s.view a).pid := by rw [e1, hw rfl]; rfl
    have key : Supervised env a (s.view a) (s3.view a) := by
      rcases hres with ⟨-, rfl⟩ | ⟨hst, t, ok, ht, hok, e3⟩
      · rw [e1']
        exact .waiting
      · have hst' : (s.view a).state = some .load := by
          have h4 := view_state hv1'
          rw [e1', hst] at h4
          exact h4
        have hser : v1.serial = (s.view a).serial := by
          have h4 : (s1.view a).serial = v1.serial := by rw [view_serial, vmOf_of_vm? hv1']
          rw [← h4, e1']
          rfl
        rw [e3, e1', hser]
        exact .timed hst' ht hok
    split at h
    · cases h
      exact ⟨g1.trans g3, key⟩
    · obtain ⟨_, s4, h4, h⟩ := of_bind h
      cases h
      have q4 := preserved (R := Silent a) h4
      exact ⟨(g1.trans g3).trans q4.grow, by rw [q4.view]; exact key⟩

theorem Supervised.serial {v w : View} (h : Supervised env a v w) : w.serial = v.serial := by
  cases h with
  | waiting => rfl
  | timed => rfl
  | @abandoned w _ => cases w <;> rfl

/-! ## `start_virtual_machine` -/

/-- A process that the VM with view `v` has just got. -/
structure Proc.NewFor (p : Proc) (a : Addr) (v : View) : Prop where
  owner : p.owner = a
  running : p.status = none
  pid : 0 < p.pid
  serial : v.serial < p.serial

/-- **What `start_virtual_machine` can do.** -/
inductive Starts (env : Env) (a : Addr) : View → View → Prop where
  /-- It gives up before it starts anything. -/
  | refused {v : View} (h : v.state = some .terminate ∨ ¬env.Reliable) : Starts env a v v
  /-- The process could not be made. -/
  | failed {v : View} : Starts env a v (v.setState a .terminate)
  /-- There is a new process. -/
  | started {v w : View} {p : Proc} {st : State} (hp : p.NewFor a v)
      (hst : (st = .run ∧ p.kind = .bhyve) ∨ (st = .load ∧ p.kind = .loader ∧ v.state ≠ some .load))
      (hw : Supervised env a ((v.spawn a p).setState a st) w) : Starts env a v w

theorem setVmMethod_result (hm : (s.methodOf (s.vmOf a).conf).isSome) (h : setVmMethod a s = .ok (r, s')) : 0 ≤ r := by
  replace h := get_bind h
  obtain ⟨m, hm⟩ := Option.isSome_iff_exists.mp hm
  simp only [hm] at h
  obtain ⟨_, s2, h2, h⟩ := of_bind h
  exact Int.le_of_eq (pure_ok.mp h).1

theorem assignNmdm_reliable (hr : env.Reliable) (h : assignNmdm env a s = .ok (r, s')) : 0 ≤ r := by
  obtain ⟨t, s1, h1, h⟩ := of_bind h
  obtain ⟨names, s2, h2, h⟩ := of_bind h
  cases h2
  obtain ⟨names, hn⟩ := Option.isSome_iff_exists.mp (hr.scandir s1.tick)
  rw [hn] at h
  obtain ⟨ok, s3, h3, h⟩ := of_bind h
  cases h3
  rw [hr.malloc, if_neg (by decide)] at h
  obtain ⟨ok, s4, h4, h⟩ := of_bind h
  cases h4
  rw [hr.stat, if_neg (by decide)] at h
  obtain ⟨_, s5, h5, h⟩ := of_bind h
  exact Int.le_of_eq (pure_ok.mp h).1

theorem assignComport_reliable (hr : env.Reliable) (h : assignComport env a s = .ok (r, s')) : 0 ≤ r := by
  obtain ⟨v, s1, h1, h⟩ := of_bind h
  obtain ⟨conf, s2, h2, h⟩ := of_bind h
  cases hc : conf.comport with
  | none =>
    rw [hc] at h
    exact Int.le_of_eq (pure_ok.mp h).1
  | some com =>
    simp only [hc] at h
    split at h
    · exact Int.le_of_eq (pure_ok.mp h).1
    · split at h
      · obtain ⟨ok, s3, h3, h⟩ := of_bind h
        cases h3
        rw [hr.malloc, if_neg (by decide)] at h
        obtain ⟨_, s4, h4, h⟩ := of_bind h
        exact Int.le_of_eq (pure_ok.mp h).1
      · exact assignNmdm_reliable hr h

theorem setUpTaps_result (hst : (s.vmOf a).state ≠ .terminate) (h : setUpTaps env a s = .ok (r, s')) : 0 ≤ r := by
  replace h := getVm_bind h
  rw [if_pos hst] at h
  exact Int.le_of_eq (pure_ok.mp h).1

/-- The state of the entry can be read off the view. -/
theorem state_of_view {v w : VmEntry} (hv : s.vm? a = some v) (hw : s'.vm? a = some w)
    (h : s'.view a = s.view a) : w.state = v.state := by
  have h1 := view_state hv
  rw [← h, view_state hw] at h1
  exact Option.some.inj h1

/-- **`start_virtual_machine`.** -/
theorem startVirtualMachine_spec (hv : s.vm? a = some v)
    (hm : (s.methodOf v.conf).isSome) (hser : v.serial < s.next)
    (h : startVirtualMachine env a s = .ok (r, s')) :
    Grow a s s' ∧ Starts env a (s.view a) (s'.view a) ∧ (s'.view a).serial < s'.next := by
  have hsome : (s.vm? a).isSome := by rw [hv]; rfl
  have hvs : (s.view a).serial < s.next := by rw [view_serial, vmOf_of_vm? hv]; exact hser
  -- giving up after silent preparations
  have giveUp : ∀ {t : Daemon}, Silent a s t → (v.state = .terminate ∨ ¬env.Reliable) →
      Grow a s t ∧ Starts env a (s.view a) (t.view a) ∧ (t.view a).serial < t.next := by
    intro t q hc
    refine ⟨q.grow, ?_, ?_⟩
    · rw [q.view]
      exact .refused (by rw [view_state hv]; simpa using hc)
    · rw [q.view]
      exact Nat.lt_of_lt_of_le hvs q.2
  obtain ⟨r1, s1, h1, h⟩ := of_bind h
  have q1 : Silent a s s1 := preserved h1
  have hr1 := setVmMethod_result (by rw [vmOf_of_vm? hv]; exact hm) h1
  rw [if_neg (by omega)] at h
  obtain ⟨r2, s2, h2, h⟩ := of_bind h
  have q2 : Silent a s s2 := trans_of (Silent a) q1 (preserved h2)
  split at h
  · next hneg =>
    cases h
    exact giveUp q2 (.inr fun hr => by have := assignComport_reliable hr h2; omega)
  obtain ⟨r3, s3, h3, h⟩ := of_bind h
  have q3 : Silent a s s3 := trans_of (Silent a) q2 (preserved h3)
  split at h
  · next hneg =>
    cases h
    refine giveUp q3 (.inl ?_)
    by_contra hst
    obtain ⟨v2, hv2⟩ := Option.isSome_iff_exists.mp (q2.touch.isSome hsome)
    have hst2 := state_of_view hv hv2 (q2.view a)
    have := setUpTaps_result (by rw [vmOf_of_vm? hv2, hst2]; exact hst) h3
    omega
  obtain ⟨v3, hv3⟩ := Option.isSome_iff_exists.mp (q3.touch.isSome hsome)
  obtain ⟨r4, s4, h4, h⟩ := of_bind h
  rcases startBhyve_spec hv3 h4 with ⟨hr4, q4⟩ | ⟨hr4, hsp⟩
  · -- no process: the VM is cleaned up
    rw [if_pos hr4] at h
    obtain ⟨_, s5, h5, h⟩ := of_bind h
    cases h
    have q : Silent a s s4 := trans_of (Silent a) q3 q4
    obtain ⟨g5, e5⟩ := cleanupVirtualMachine_spec (q.touch.isSome hsome) h5
    refine ⟨q.grow.trans g5, ?_, ?_⟩
    · rw [e5, q.view]
      exact .failed
    · rw [e5, q.view]
      exact Nat.lt_of_lt_of_le hvs (Nat.le_trans q.2 g5.next)
  · rw [if_neg (by omega)] at h
    have hst3 : (s.view a).state = some v3.state := by rw [← q3.view a, view_state hv3]
    obtain ⟨st, kind, hsp', hk⟩ : ∃ st kind, Spawned a st kind s s4 ∧
        ((st = .run ∧ kind = .bhyve) ∨ (st = .load ∧ kind = .loader ∧ (s.view a).state ≠ some .load)) := by
      rcases hsp with hsp | ⟨hl, hsp⟩
      · exact ⟨_, _, hsp.of_silent q3 (refl_of (Silent a) _), .inl ⟨rfl, rfl⟩⟩
      · exact ⟨_, _, hsp.of_silent q3 (refl_of (Silent a) _), .inr ⟨rfl, rfl, by rw [hst3]; simpa using hl⟩⟩
    obtain ⟨p, ho, hkind, hrun, hlo, hhi, hpid, hprocs, g4, e4⟩ := hsp'
    have hown : s4.OwnPid a (s4.view a).pid := by
      intro p' hp' hpid'
      rw [e4] at hpid'
      rw [hprocs] at hp'
      rcases List.mem_cons.mp hp' with rfl | hp'
      · exact ho
      · exact absurd (List.mem_map.mpr ⟨p', hp', hpid'⟩) hpid
    obtain ⟨g5, hsup⟩ := superviseProcess_spec (g4.isSome hsome) hown h
    refine ⟨g4.trans g5, ?_, ?_⟩
    · rw [e4] at hsup
      exact .started ⟨ho, hrun.1, hrun.2, Nat.lt_of_lt_of_le hvs hlo⟩ (by rw [hkind]; exact hk) hsup
    · rw [hsup.serial, e4]
      exact Nat.lt_of_lt_of_le hhi g5.next

/-! ## Stopping -/

/-- An event that is dropped is freed once. -/
theorem stopWaitingFor_owned (h : stopWaitingFor fn s = .ok (u, s')) (ho : s.EventsOwned) : s'.EventsOwned := by
  rw [of_modify h]
  have hperm : ((s.eventList.filter fun e => !fn e).map (·.addr) ++
      ((s.eventList.filter fn).map (·.addr) ++ s.freedEvents)).Perm
      (s.eventList.map (·.addr) ++ s.freedEvents) := by
    rw [← List.append_assoc, ← List.map_append]
    refine List.Perm.append_right _ (List.Perm.map _ ?_)
    exact List.perm_append_comm.trans (List.filter_append_perm fn s.eventList)
  exact ⟨hperm.nodup_iff.mpr ho.nodup, fun x hx => ho.bound x (hperm.subset hx)⟩

/-- Dropping events of the VM other than the one that waits for its process. -/
theorem stopWaitingFor_within
    (hfn : ∀ e, fn e = true → e.data = .vm a ∧ e.filter ≠ .proc) (hblank : ∀ e, fn e.blank = fn e)
    (h : stopWaitingFor fn s = .ok (u, s')) : Within a s s' := by
  rw [of_modify h]
  refine ⟨⟨rfl, Nat.le_refl _, rfl, id, rfl, [], rfl, by simp⟩, rfl,
    ⟨[], fun e => !fn e, ?_, .nil, ?_⟩, fun ho => ?_⟩
  · simp only [List.nil_append, List.filter_map, Function.comp_def, hblank]
  · intro e he
    by_contra hc
    have hf : fn e = true := by simpa using hc
    obtain ⟨h1, h2⟩ := hfn e hf
    exact he.elim (· h1) h2
  · rw [← of_modify h]
    exact stopWaitingFor_owned h ho

theorem vmOutput_blank (v : VmEntry) (e : Event) : vmOutput v e.blank = vmOutput v e := by simp [vmOutput]

theorem vmOutputAndTimers_blank (v : VmEntry) (e : Event) :
    vmOutputAndTimers v e.blank = vmOutputAndTimers v e := by simp [vmOutputAndTimers]

/-- `stop_virtual_machine` drops all timers of the VM. -/
theorem drain_spec (hva : v.addr = a)
    (h : stopWaitingFor (vmOutputAndTimers v) s = .ok (u, s')) :
    Within a s s' ∧ s'.view a = (s.view a).drain := by
  have hfn : ∀ e, vmOutputAndTimers v e = true → e.data = .vm a ∧ e.filter ≠ .proc := by
    intro e he
    simp only [vmOutputAndTimers, Bool.and_eq_true, Bool.or_eq_true, beq_iff_eq] at he
    refine ⟨by rw [he.1, hva], fun hp => ?_⟩
    rw [hp] at he
    rcases he.2 with h' | ⟨h', -⟩ <;> cases h'
  refine ⟨stopWaitingFor_within hfn (vmOutputAndTimers_blank v) h, ?_⟩
  have hdrop : ∀ e : Event, e.isTimerOf a = true → vmOutputAndTimers v e = true := by
    intro e he
    obtain ⟨h1, h2, -⟩ := Event.isTimerOf_iff.mp he
    simp [vmOutputAndTimers, h1, h2, hva]
  have ht : (s.eventList.filter fun e => !vmOutputAndTimers v e).filter (·.isTimerOf a) = [] := by
    rw [List.filter_eq_nil_iff]
    intro e he htm
    have := (List.mem_filter.mp he).2
    simp [hdrop e htm] at this
  have hw : (s.eventList.filter fun e => !vmOutputAndTimers v e).filter (·.isWaitOf a) =
      s.eventList.filter (·.isWaitOf a) := by
    rw [List.filter_filter]
    refine List.filter_congr fun e _ => ?_
    cases hwe : e.isWaitOf a with
    | false => rfl
    | true =>
      have hkeep : vmOutputAndTimers v e = false := by
        by_contra hc
        exact (hfn e (by simpa using hc)).2 (Event.isWaitOf_iff.mp hwe).2.1
      simp [hkeep]
  rw [of_modify h]
  simp only [Daemon.view, Daemon.timersOf, View.drain, ht, hw]
  rfl

/-- Dropping read events changes no view. -/
theorem stopReading_spec
    (hfn : ∀ e, fn e = true → e.data = .vm a ∧ e.filter = .read) (hblank : ∀ e, fn e.blank = fn e)
    (h : stopWaitingFor fn s = .ok (u, s')) : Within a s s' ∧ s'.view a = s.view a := by
  refine ⟨stopWaitingFor_within (fun e he => ⟨(hfn e he).1, by simp [(hfn e he).2]⟩) hblank h, ?_⟩
  have key : ∀ q : Event → Bool, (∀ e, q e = true → e.filter ≠ .read) →
      (s.eventList.filter fun e => !fn e).filter q = s.eventList.filter q := by
    intro q hq
    rw [List.filter_filter]
    refine List.filter_congr fun e _ => ?_
    cases hqe : q e with
    | false => rfl
    | true =>
      have hkeep : fn e = false := by
        by_contra hc
        exact hq e hqe (hfn e (by simpa using hc)).2
      simp [hkeep]
  rw [of_modify h]
  simp only [Daemon.view, Daemon.timersOf,
    key (·.isTimerOf a) (fun e he => by simp [(Event.isTimerOf_iff.mp he).2.1]),
    key (·.isWaitOf a) (fun e he => by simp [(Event.isWaitOf_iff.mp he).2.1])]
  rfl

theorem stopVirtualMachine_spec (hv : (s.vm? a).isSome)
    (h : stopVirtualMachine env a s = .ok (u, s')) : Within a s s' ∧ s'.view a = (s.view a).stop a := by
  obtain ⟨v, hv'⟩ := Option.isSome_iff_exists.mp hv
  replace h := getVm_bind h
  obtain ⟨_, s2, h2, h⟩ := of_bind h
  have hva : (s.vmOf a).addr = a := by
    rw [vmOf_of_vm? hv']
    exact Keyed.key_of_find? (k := VmEntry.addr) hv'
  obtain ⟨w2, e2⟩ := drain_spec hva h2
  obtain ⟨g3, e3⟩ := cleanupVirtualMachine_spec (w2.isSome hv) h
  exact ⟨w2.trans g3.within, by rw [e3, e2]; rfl⟩

theorem requestStop_spec {second : Int} (h : requestStop env a second s = .ok (u, s')) :
    Grow a s s' ∧ ∃ ok, s'.view a = (s.view a).requestStop a second ok ∧
      (env.Reliable → 0 ≤ second → ok = true) := by
  replace h := getVm_bind h
  obtain ⟨_, s2, h2, h⟩ := of_bind h
  obtain ⟨g2, e2⟩ := acpiPoweroffBhyve_spec h2
  obtain ⟨_, s3, h3, h⟩ := of_bind h
  cases h
  obtain ⟨g3, ok, e3, -, hrel⟩ := setTimer_spec h3
  exact ⟨g2.trans g3, ok, by rw [e3, e2]; rfl, hrel⟩

/-! ## `on_timer` -/

/-- **What `on_timer` can do.** -/
inductive Fires (env : Env) (a : Addr) : View → View → Prop where
  | start {v w : View} (hst : v.state = some .terminate) (h : Starts env a v w) : Fires env a v w
  | poweroff {v : View} {st : State} {opened : Bool} (hst : v.state = some st) (h : st ≠ .terminate) (h' : st ≠ .run) :
      Fires env a v (v.poweroff a opened)
  | ignored {v : View} (hst : v.state = some .run) : Fires env a v v

/-- The VM at `a` is as the life cycle expects it. -/
structure Daemon.VmReady (s : Daemon) (a : Addr) (v : VmEntry) : Prop where
  vm : s.vm? a = some v
  method : (s.methodOf v.conf).isSome
  serial : v.serial < s.next

theorem Daemon.VmReady.addr (h : s.VmReady a v) : v.addr = a :=
  Keyed.key_of_find? (k := VmEntry.addr) h.vm

theorem Daemon.VmReady.isSome (h : s.VmReady a v) : (s.vm? a).isSome := by rw [h.vm]; rfl

theorem Daemon.VmReady.view_serial (h : s.VmReady a v) : (s.view a).serial < s.next := by
  rw [Bmd.view_serial, vmOf_of_vm? h.vm]; exact h.serial

theorem onTimerVm_spec (hr : s.VmReady a v) (h : onTimerVm env v s = .ok (u, s')) :
    Grow a s s' ∧ Fires env a (s.view a) (s'.view a) ∧ (s'.view a).serial < s'.next := by
  have hst := view_state hr.vm
  have hpower : ∀ {t : Daemon} {u : Unit}, v.state ≠ .terminate → v.state ≠ .run →
      poweroffBhyve env a s = .ok (u, t) →
      Grow a s t ∧ Fires env a (s.view a) (t.view a) ∧ (t.view a).serial < t.next := by
    intro t u hne hne' ht
    obtain ⟨g, -, opened, e⟩ := poweroffBhyve_spec hr.isSome ht
    refine ⟨g, by rw [e]; exact .poweroff hst hne hne', ?_⟩
    rw [e]
    exact Nat.lt_of_lt_of_le hr.view_serial g.next
  unfold onTimerVm at h
  rw [hr.addr] at h
  cases hs : v.state with
  | terminate =>
    rw [hs] at h hst
    obtain ⟨r, s1, h1, h⟩ := of_bind h
    cases h
    obtain ⟨g, hstart, hser⟩ := startVirtualMachine_spec hr.vm hr.method hr.serial h1
    exact ⟨g, .start hst hstart, hser⟩
  | run =>
    rw [hs] at h hst
    cases h
    exact ⟨refl_of (Grow a) s, .ignored hst, hr.view_serial⟩
  | load | stop | remove | restart => rw [hs] at h; exact hpower (by simp [hs]) (by simp [hs]) h

/-! ## `on_vm_exit` -/

/-- An entry of the configuration list provides a method, whatever its `install` flag. -/
theorem methodOf_isSome : (s.methodOf c).isSome = (s.conf? c).isSome := by
  cases h : s.conf? c with
  | none => simp [Daemon.methodOf, h]
  | some e => simpa [Daemon.methodOf, h] using e.hasMethod

theorem conf?_setInstall : (s.core.conf? c) = (s.conf? c).map (·.setInstall false) :=
  Keyed.find?_map (k := ConfEntry.addr) (f := (·.setInstall false)) (fun _ => rfl) s.confs c

theorem methodOf_of_core (h : s'.core = s.core) (hm : (s.methodOf c).isSome) : (s'.methodOf c).isSome := by
  rw [methodOf_isSome] at hm ⊢
  have h1 := conf?_setInstall (s := s') (c := c)
  rw [h, conf?_setInstall] at h1
  have h2 := congrArg Option.isSome h1
  simpa [hm] using h2.symm

/-- `on_vm_exit` answers the exit of a running VM with a start. -/
def Exited.again (r : Exited) : Bool := r.conf.restarts r.status

/-- What the latest exit asks for. -/
def View.Again (v : View) (b : Bool) : Prop := ∀ r ∈ v.exits.head?, r.again = b

/-- **What `on_vm_exit` can do** to a VM whose process has been reaped. -/
inductive Exits (env : Env) (a : Addr) : View → View → Prop where
  /-- The loader is done: `bhyve` is started. -/
  | loaded {v w : View} (hst : v.state = some .load) (h : Starts env a v w) : Exits env a v w
  /-- The loader failed. -/
  | loadFailed {v : View} (hst : v.state = some .load) : Exits env a v (v.stop a)
  /-- The guest rebooted. -/
  | rebooted {v w : View} (hst : v.state = some .run) (h : Starts env a v w) (hagain : v.Again true) : Exits env a v w
  /-- The VM is down. -/
  | stopped {v : View} (hst : v.state = some .run ∨ v.state = some .stop)
      (hagain : v.state = some .run → v.Again false) : Exits env a v (v.stop a)
  /-- The VM is down and will be started again. -/
  | restarting {v : View} {t : Int} {ok : Bool} (hst : v.state = some .restart) (ht : 3 ≤ t)
      (hok : env.Reliable → ok = true) :
      Exits env a v (((v.stop a).setState a .terminate).arm a .restart t ok)
  /-- The VM was removed from the configuration. -/
  | removed {v : View} (hst : v.state = some .remove) : Exits env a v (v.stop a).gone
  /-- There was no process. -/
  | stale {v : View} (hst : v.state = some .terminate) : Exits env a v v

/-- Views depend on nothing else. -/
theorem view_congr (hvm : s'.vmList = s.vmList) (hev : s'.eventList = s.eventList)
    (hp : s'.procs = s.procs) (hl : s'.log = s.log) (hf : s'.forced = s.forced)
    (hx : s'.exits = s.exits) (b : Addr) :
    s'.view b = s.view b := by
  simp only [Daemon.view, Daemon.vm?, Daemon.vmOf, Daemon.timersOf, hvm, hev, hp, hl, hf, hx]

theorem setInstall_within {b : Bool} (h : setInstall c b s = .ok (u, s')) : Within a s s' ∧ s'.view a = s.view a := by
  rw [of_modify h]
  refine ⟨⟨⟨rfl, Nat.le_refl _, rfl, id, rfl, [], rfl, by simp⟩, ?_, ⟨[], fun _ => true, ?_, .nil, by simp⟩, ?_⟩,
    view_congr rfl rfl rfl rfl rfl rfl a⟩
  · have hmap : (s.confs.map fun e => if e.addr == c then e.setInstall b else e).map (·.setInstall false) =
        s.confs.map (·.setInstall false) :=
      Keyed.map_update (k := ConfEntry.addr) (fun e => show (e.setInstall b).setInstall false = _ from rfl) s.confs c
    simp only [Daemon.core, Daemon.rest, Daemon.modConf, hmap]
  · simp [Daemon.modConf]
  · exact fun ho => ⟨ho.nodup, ho.bound⟩

theorem finishLoad_spec (hv : (s.vm? a).isSome) (h : finishLoad a s = .ok (u, s')) :
    Within a s s' ∧ s'.view a = s.view a := by
  obtain ⟨v, hv'⟩ := Option.isSome_iff_exists.mp hv
  have hva : v.addr = a := Keyed.key_of_find? (k := VmEntry.addr) hv'
  replace h := getVm_bind h
  rw [vmOf_of_vm? hv'] at h
  obtain ⟨_, s2, h2, h⟩ := of_bind h
  have q2 := preserved (R := Silent a) h2
  obtain ⟨_, s3, h3, h⟩ := of_bind h
  have q3 : Silent a s2 s3 := modVm_written .wires h3 fun _ => rfl
  have q : Silent a s s3 := trans_of (Silent a) q2 q3
  have hfn : ∀ e, vmOutput v e = true → e.data = .vm a ∧ e.filter = .read := by
    intro e he
    simp only [vmOutput, Bool.and_eq_true, beq_iff_eq] at he
    exact ⟨by rw [he.1.1, hva], he.1.2⟩
  obtain ⟨w4, e4⟩ := stopReading_spec hfn (vmOutput_blank v) h
  exact ⟨q.within.trans w4, by rw [e4, q.view]⟩

theorem onVmStopped_spec (hv : (s.vm? a).isSome) (h : onVmStopped env a s = .ok (u, s')) :
    Within a s s' ∧ s'.view a = (s.view a).stop a := by
  obtain ⟨_, s1, h1, h⟩ := of_bind h
  obtain ⟨w1, e1⟩ := stopVirtualMachine_spec hv h1
  replace h := get_bind h
  obtain ⟨w2, e2⟩ := setInstall_within (a := a) h
  exact ⟨w1.trans w2, by rw [e2, e1]⟩

theorem onVmRestart_spec (hv : (s.vm? a).isSome) (h : onVmRestart env a s = .ok (u, s')) :
    Within a s s' ∧ ∃ t ok, 3 ≤ t ∧ (env.Reliable → ok = true) ∧
      s'.view a = (((s.view a).stop a).setState a .terminate).arm a .restart t ok := by
  obtain ⟨_, s1, h1, h⟩ := of_bind h
  obtain ⟨w1, e1⟩ := stopVirtualMachine_spec hv h1
  obtain ⟨_, s2, h2, h⟩ := of_bind h
  obtain ⟨g2, e2⟩ := setState_spec (w1.isSome hv) h2
  replace h := getVmConf_bind h
  obtain ⟨_, s4, h4, h⟩ := of_bind h
  cases h
  obtain ⟨g4, ok, e4, -, hrel⟩ := setTimer_spec h4
  exact ⟨(w1.trans g2.within).trans g4.within, _, ok, Int.le_max_right _ _,
    fun hr => hrel hr (by omega), by rw [e4, e2, e1]⟩

/-- `on_vm_exit` in every state but `REMOVE`. -/
theorem onVmExitStatus_spec {conf : VmConf} {status : Nat} (hr : s.VmReady a v)
    (hrem : v.state ≠ .remove) (hagain : (s.view a).Again (conf.restarts status))
    (h : onVmExitStatus env v conf status s = .ok (u, s')) :
    Within a s s' ∧ Exits env a (s.view a) (s'.view a) ∧ (s'.view a).serial < s'.next := by
  have hst := view_state hr.vm
  have hser := hr.view_serial
  unfold onVmExitStatus at h
  rw [hr.addr] at h
  cases hs : v.state with
  | remove => exact absurd hs hrem
  | load =>
    rw [hs] at h hst
    dsimp only at h
    split at h
    · obtain ⟨_, s1, h1, h⟩ := of_bind h
      obtain ⟨w1, e1⟩ := finishLoad_spec hr.isSome h1
      obtain ⟨v1, hv1, hc1, -⟩ := w1.vm?_self hr.vm
      have hm1 : (s1.methodOf v1.conf).isSome := by
        rw [hc1]
        exact methodOf_of_core w1.core hr.method
      have hs1 : v1.serial < s1.next := by
        have h2 : (s1.view a).serial = v1.serial := by rw [view_serial, vmOf_of_vm? hv1]
        rw [← h2, e1]
        exact Nat.lt_of_lt_of_le hser w1.next
      obtain ⟨_, s2, h2, h⟩ := of_bind h
      cases h
      obtain ⟨g2, hstart, hser2⟩ := startVirtualMachine_spec hv1 hm1 hs1 h2
      rw [e1] at hstart
      exact ⟨w1.trans g2.within, .loaded hst hstart, hser2⟩
    · obtain ⟨w1, e1⟩ := stopVirtualMachine_spec hr.isSome h
      exact ⟨w1, by rw [e1]; exact .loadFailed hst, by rw [e1]; exact Nat.lt_of_lt_of_le hser w1.next⟩
  | restart =>
    rw [hs] at h hst
    obtain ⟨w1, t, ok, ht, hok, e1⟩ := onVmRestart_spec hr.isSome h
    exact ⟨w1, by rw [e1]; exact .restarting hst ht hok, by rw [e1]; exact Nat.lt_of_lt_of_le hser w1.next⟩
  | run =>
    rw [hs] at h hst
    dsimp only at h
    split at h
    · next hre =>
      obtain ⟨_, s2, h2, h⟩ := of_bind h
      cases h
      obtain ⟨g2, hstart, hser2⟩ := startVirtualMachine_spec hr.vm hr.method hr.serial h2
      exact ⟨g2.within, .rebooted hst hstart (hre ▸ hagain), hser2⟩
    · next hre =>
      obtain ⟨w1, e1⟩ := onVmStopped_spec hr.isSome h
      exact ⟨w1, by rw [e1]; exact .stopped (.inl hst) fun _ => (Bool.not_eq_true _).mp hre ▸ hagain, by rw [e1]; exact Nat.lt_of_lt_of_le hser w1.next⟩
  | stop =>
    rw [hs] at h hst
    obtain ⟨w1, e1⟩ := onVmStopped_spec hr.isSome h
    exact ⟨w1, by rw [e1]; exact .stopped (.inr hst) fun hrun => (by rw [hst] at hrun; cases hrun), by rw [e1]; exact Nat.lt_of_lt_of_le hser w1.next⟩
  | terminate =>
    rw [hs] at h hst
    cases h
    exact ⟨refl_of (Within a) s, .stale hst, hser⟩

end Bmd
