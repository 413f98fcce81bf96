import Bmd.Correctness.Command

/-!
# `Correctness.Dispatch` — the delivery of an event

The kernel drops the knote of a one-shot event when it delivers it; the callback runs; the dispatcher takes the
event out of `event_list`. Seen from the VM the event belongs to, this is one move: a timer expires, a child's
exit is delivered, or output is read. Seen from the other VMs it is what the callback does to them.
-/

namespace Bmd

open Lib Lib.Prog

variable {s s' t : Daemon} {a b : Addr} {e : Event} {env : Env} {u : Unit} {x : Addr} {r : ReadResult} {pid : Pid}
  {v : VmEntry} {status : Nat} {io : Io}

/-! ## Delivery -/

/-- The state in which the callback runs. -/
def Daemon.delivered (s : Daemon) (e : Event) : Daemon :=
  { s with
    eventList := s.eventList.map fun x => if x.addr == e.addr && e.oneshot then { x with armed := false } else x
    log := s.delivery e ++ s.log }

theorem deliver_ok (h : deliver e s = .ok (u, s')) : s' = s.delivered e := of_modify h

/-- No other event has the address of an event in the list. -/
theorem WF.split_event (hw : WF s) (he : e ∈ s.eventList) :
    ∃ l l', s.eventList = l ++ e :: l' ∧ (∀ x ∈ l, x.addr ≠ e.addr) ∧ ∀ x ∈ l', x.addr ≠ e.addr := by
  obtain ⟨l, l', hl⟩ := List.append_of_mem he
  have hnd : (s.eventList.map (·.addr)).Nodup := (List.nodup_append.mp hw.owned.nodup).1
  rw [hl, List.map_append, List.nodup_append, List.map_cons, List.nodup_cons] at hnd
  refine ⟨l, l', hl, fun x hx => ?_, fun x hx hxe => ?_⟩
  · exact hnd.2.2 _ (List.mem_map_of_mem hx) _ List.mem_cons_self
  · exact hnd.2.1.1 (hxe ▸ List.mem_map_of_mem hx)

theorem WF.event_unique (hw : WF s) (he : e ∈ s.eventList) {x : Event} (hx : x ∈ s.eventList)
    (h : x.addr = e.addr) : x = e :=
  List.inj_on_of_nodup_map (List.nodup_append.mp hw.owned.nodup).1 hx he h

theorem mem_delivered {x : Event} (hx : x ∈ (s.delivered e).eventList) :
    ∃ y ∈ s.eventList, (x = y ∧ (y.addr ≠ e.addr ∨ e.oneshot = false)) ∨
      (x = { y with armed := false } ∧ y.addr = e.addr ∧ e.oneshot = true) := by
  obtain ⟨y, hy, rfl⟩ := List.mem_map.mp hx
  refine ⟨y, hy, ?_⟩
  by_cases h1 : y.addr = e.addr <;> cases h2 : e.oneshot <;> simp [h1]

theorem delivered_of_not_oneshot (h : e.oneshot = false) : (s.delivered e).eventList = s.eventList := by
  show s.eventList.map _ = _
  simp [h]

theorem delivered_of_split {l l' : List Event} (hl : s.eventList = l ++ e :: l') (h1 : ∀ x ∈ l, x.addr ≠ e.addr)
    (h2 : ∀ x ∈ l', x.addr ≠ e.addr) (ho : e.oneshot = true) :
    (s.delivered e).eventList = l ++ { e with armed := false } :: l' := by
  have key : ∀ k : List Event, (∀ x ∈ k, x.addr ≠ e.addr) →
      k.map (fun x => if x.addr == e.addr && e.oneshot then { x with armed := false } else x) = k := by
    intro k hk
    refine (List.map_congr_left fun x hx => ?_).trans (List.map_id k)
    simp [hk x hx]
  show s.eventList.map _ = _
  rw [hl, List.map_append, List.map_cons, key l h1, key l' h2]
  simp [ho]

theorem delivered_wf (hw : WF s) : WF (s.delivered e) := by
  have haddr : (s.delivered e).eventList.map (·.addr) = s.eventList.map (·.addr) := by
    show (s.eventList.map _).map _ = _
    rw [List.map_map]
    refine List.map_congr_left fun x _ => ?_
    show (if _ then _ else x).addr = x.addr
    split <;> rfl
  refine { hw with
    events := fun x hx => ?_, owned := ⟨?_, ?_⟩, eventVms := fun x hx => ?_, logged := fun x hx a hxa => ?_ }
  · obtain ⟨y, hy, ⟨rfl, -⟩ | ⟨rfl, -⟩⟩ := mem_delivered hx
    · exact hw.events x hy
    · exact hw.events y hy
  · rw [haddr]; exact hw.owned.nodup
  · rw [haddr]; exact hw.owned.bound
  · obtain ⟨y, hy, ⟨rfl, -⟩ | ⟨rfl, -⟩⟩ := mem_delivered hx
    · exact hw.eventVms x hy
    · exact hw.eventVms y hy
  · rcases List.mem_append.mp hx with hx | hx
    · unfold Daemon.delivery at hx
      split at hx
      · next b hb =>
        cases hv : s.vm? b with
        | none => rw [hv] at hx; cases hx
        | some v =>
          rw [hv] at hx
          rw [List.mem_singleton.mp hx] at hxa
          cases hxa
          exact hw.lt_next hv
      · cases hx
    · exact hw.logged x hx a hxa

theorem delivered_socks (h : Socks s) : Socks (s.delivered e) := by
  refine ⟨fun x hx a hd => ?_, h.bound⟩
  obtain ⟨y, hy, ⟨rfl, -⟩ | ⟨rfl, -⟩⟩ := mem_delivered hx
  · exact h.live x hy a hd
  · exact h.live y hy a hd

/-! ## Delivery in the views -/

theorem delivery_of_ne (hd : e.data ≠ .vm a) : (s.delivery e).filter (·.about a) = [] := by
  rw [List.filter_eq_nil_iff]
  intro x hx
  unfold Daemon.delivery at hx
  split at hx
  · next b hb =>
    cases hv : s.vm? b with
    | none => rw [hv] at hx; cases hx
    | some v =>
      rw [hv] at hx
      rw [List.mem_singleton.mp hx]
      have hba : b ≠ a := fun h => hd (by rw [hb, h])
      simp [Action.about, Action.vm?, hba]
  · cases hx

/-- A VM that the event does not belong to sees nothing of the delivery. -/
theorem view_delivered_of_ne (hw : WF s) (he : e ∈ s.eventList) (hd : e.data ≠ .vm a) :
    (s.delivered e).view a = s.view a := by
  have hsame : ∀ q : Event → Bool, (∀ x, q x = true → x.data = .vm a) →
      ∀ {γ : Type} (g : Event → γ), (∀ x : Event, g { x with armed := false } = g x) →
      ((s.delivered e).eventList.filter q).map g = (s.eventList.filter q).map g := by
    intro q hq γ g hg
    show ((s.eventList.map _).filter q).map g = _
    rw [List.filter_map, List.map_map]
    have hfix : ∀ x ∈ s.eventList, x.addr = e.addr → q x = false ∧ q { x with armed := false } = false := by
      intro x hx hxe
      have := hw.event_unique he hx hxe
      subst this
      constructor <;> by_contra h
      · exact hd (hq _ (eq_true_of_ne_false h))
      · have := hq _ (eq_true_of_ne_false h)
        exact hd this
    rw [List.filter_congr (q := q) fun x hx => ?_]
    · refine List.map_congr_left fun x hx => ?_
      show g (if _ then _ else x) = g x
      split
      · exact hg x
      · rfl
    · show q (if _ then _ else x) = q x
      split
      · next hc =>
        have hxe : x.addr = e.addr := by simpa using (Bool.and_eq_true_iff.mp hc).1
        rw [(hfix x hx hxe).1, (hfix x hx hxe).2]
      · rfl
  have ht := hsame (·.isTimerOf a) (fun x hx => (Event.isTimerOf_iff.mp hx).1) (·.purpose) fun _ => rfl
  have hwt := hsame (·.isWaitOf a) (fun x hx => (Event.isWaitOf_iff.mp hx).1) (·.ident) fun _ => rfl
  have hl : (s.delivered e).log.filter (·.about a) = s.log.filter (·.about a) := by
    show (s.delivery e ++ s.log).filter _ = _
    rw [List.filter_append, delivery_of_ne hd, List.nil_append]
  simp only [Daemon.view, Daemon.timersOf, ht, hwt, hl]
  rfl

section Own

variable {v : VmEntry}

theorem log_delivered (hd : e.data = .vm a) (hv : s.vm? a = some v) :
    (s.delivered e).log.filter (·.about a) =
      .deliver a e.cb e.purpose v.state (s.vmOf a).serial :: s.log.filter (·.about a) := by
  show (s.delivery e ++ s.log).filter _ = _
  simp [Daemon.delivery, hd, hv, vmOf_of_vm? hv, Action.about, Action.vm?]

/-- Of the events of one kind, the delivered one is lost if it is of this kind. -/
theorem filter_delivered (hw : WF s) (he : e ∈ s.eventList) (ho : e.oneshot = true) (q : Event → Bool)
    (hq : q { e with armed := false } = false) : ∃ k k', s.eventList.filter q = k ++ ([e].filter q ++ k') ∧
      (s.delivered e).eventList.filter q = k ++ k' := by
  obtain ⟨l, l', hl, h1, h2⟩ := hw.split_event he
  refine ⟨l.filter q, l'.filter q, ?_, ?_⟩
  · rw [hl, ← List.filter_append, ← List.filter_append]
    rfl
  · rw [delivered_of_split hl h1 h2 ho, List.filter_append, List.filter_cons_of_neg (Bool.eq_false_iff.mp hq)]

theorem view_delivered_timer (hw : WF s) (he : e ∈ s.eventList) (harm : e.armed = true)
    (hf : e.filter = .timer) (ho : e.oneshot = true) (hd : e.data = .vm a) (hv : s.vm? a = some v) :
    ∃ k k', (s.view a).timers = k ++ e.purpose :: k' ∧
      (s.delivered e).view a =
        { s.view a with timers := k ++ k' }.note (.deliver a e.cb e.purpose v.state (s.view a).serial) := by
  obtain ⟨k, k', ht, ht'⟩ := filter_delivered hw he ho (·.isTimerOf a) (by simp [Event.isTimerOf])
  obtain ⟨j, j', hwt, hwt'⟩ := filter_delivered hw he ho (·.isWaitOf a) (by simp [Event.isWaitOf])
  rw [List.filter_cons_of_pos (Event.isTimerOf_iff.mpr ⟨hd, hf, harm⟩)] at ht
  rw [List.filter_cons_of_neg (fun h => by cases hf.symm.trans (Event.isWaitOf_iff.mp h).2.1)] at hwt
  refine ⟨k.map (·.purpose), k'.map (·.purpose), by simp [Daemon.view, Daemon.timersOf, ht], ?_⟩
  simp only [Daemon.view, Daemon.timersOf, ht', hwt', hwt, log_delivered hd hv, View.note, List.map_append]
  rfl

theorem view_delivered_wait (hw : WF s) (he : e ∈ s.eventList) (harm : e.armed = true)
    (hf : e.filter = .proc) (ho : e.oneshot = true) (hd : e.data = .vm a) (hv : s.vm? a = some v) :
    ∃ k k', (s.view a).waits = k ++ e.ident :: k' ∧
      (s.delivered e).view a =
        { s.view a with waits := k ++ k' }.note (.deliver a e.cb e.purpose v.state (s.view a).serial) := by
  obtain ⟨k, k', hwt, hwt'⟩ := filter_delivered hw he ho (·.isWaitOf a) (by simp [Event.isWaitOf])
  obtain ⟨j, j', ht, ht'⟩ := filter_delivered hw he ho (·.isTimerOf a) (by simp [Event.isTimerOf])
  rw [List.filter_cons_of_pos (Event.isWaitOf_iff.mpr ⟨hd, hf, harm⟩)] at hwt
  rw [List.filter_cons_of_neg (fun h => by cases hf.symm.trans (Event.isTimerOf_iff.mp h).2.1)] at ht
  refine ⟨k.map (·.ident), k'.map (·.ident), by simp [Daemon.view, hwt], ?_⟩
  simp only [Daemon.view, Daemon.timersOf, ht', hwt', ht, log_delivered hd hv, View.note, List.map_append]
  rfl

theorem view_delivered_read (ho : e.oneshot = false) (hd : e.data = .vm a) (hv : s.vm? a = some v) :
    (s.delivered e).view a = (s.view a).note (.deliver a e.cb e.purpose v.state (s.view a).serial) := by
  simp only [Daemon.view, Daemon.timersOf, delivered_of_not_oneshot ho, log_delivered hd hv, View.note]
  rfl

end Own

/-! ## Callbacks of virtual machines -/

/-- The exit callback reaps a process of another VM. -/
def Daemon.theft (s : Daemon) (e : Event) : Prop :=
  e.cb = .onVmExit ∧ ∃ b, e.data = .vm b ∧ ∃ p ∈ s.procs, p.pid = (s.vmOf b).pid ∧ p.owner ≠ b

/-- The event is the exit of a VM that is marked for removal. -/
def Daemon.removing (s : Daemon) (e : Event) : Prop :=
  e.cb = .onVmExit ∧ ∃ b, e.data = .vm b ∧ (s.view b).Leaving

/-- An event whose address is `x` is in the list. -/
def Daemon.holds (s : Daemon) (x : Addr) : Prop := ∃ e ∈ s.eventList, e.addr = x

theorem holds_delivered (he : e ∈ s.eventList) : (s.delivered e).holds e.addr := by
  refine ⟨_, List.mem_map_of_mem he, ?_⟩
  split <;> rfl

/-- **What a callback does**, after the delivery of the event `e` in `s`. -/
structure Handles (env : Env) (e : Event) (s s' : Daemon) : Prop where
  tidy : Tidy (s.delivered e) s'
  life : ∀ a, LifeStar env (s.theft e) a (s.view a) (s'.view a)
  holds : e.oneshot = true → ¬s.removing e → s'.holds e.addr

/-- Work for the VM of the event leaves the other views as they were. -/
theorem Handles.of_acts (hw : WF s) (he : e ∈ s.eventList) (hd : e.data = .vm b) (hsome : (s.vm? b).isSome)
    (hin : Within b (s.delivered e) s') (hser : (s'.view b).serial < s'.next)
    (hlife : Life env (s.theft e) b (s.view b) (s'.view b))
    (hholds : e.oneshot = true → s'.holds e.addr) : Handles env e s s' := by
  refine ⟨hin.tidy hsome hser (delivered_wf hw), fun a => ?_, fun ho _ => hholds ho⟩
  by_cases hab : a = b
  · subst hab
    exact .single hlife
  · rw [hin.view hab, view_delivered_of_ne hw he (fun h => hab (by rw [hd] at h; cases h; rfl))]

theorem Grow.holds (g : Grow b s s') (h : s.holds x) : s'.holds x := by
  obtain ⟨e, he, rfl⟩ := h
  obtain ⟨new, hev, -⟩ := g.events
  have hmem : e.blank ∈ s'.eventList.map Event.blank := by
    rw [hev]
    exact List.mem_append_right _ (List.mem_map_of_mem he)
  obtain ⟨e', he', hbl⟩ := List.mem_map.mp hmem
  exact ⟨e', he', by simpa using congrArg Event.addr hbl⟩

/-- Work within a VM does not drop the event that waits for its process. -/
theorem Within.holds (h : Within b s s') {x : Event} (hx : x ∈ s.eventList) (hf : x.filter = .proc) :
    s'.holds x.addr := by
  obtain ⟨new, keep, hev, -, hk⟩ := h.events
  have hmem : x.blank ∈ s'.eventList.map Event.blank := by
    rw [hev]
    exact List.mem_append_right _ (List.mem_filter.mpr
      ⟨List.mem_map_of_mem hx, hk _ (.inr (by simpa using hf))⟩)
  obtain ⟨x', hx', hbl⟩ := List.mem_map.mp hmem
  exact ⟨x', hx', by simpa using congrArg Event.addr hbl⟩

/-- `on_timer` for an event in the list: the VM is there, and the timer was one of its pending ones. -/
theorem onTimer_fires (hw : WF s) (he : e ∈ s.eventList) (hcb : e.cb = .onTimer)
    (hd : e.data = .vm b) (harm : e.armed = true) (h : onTimer env b (s.delivered e) = .ok (u, s')) :
    ∃ v k k', s.vm? b = some v ∧ (s.view b).timers = k ++ e.purpose :: k' ∧
      (s.delivered e).view b =
        { s.view b with timers := k ++ k' }.note (.deliver b .onTimer e.purpose v.state (s.view b).serial) ∧
      Grow b (s.delivered e) s' ∧ Fires env b ((s.delivered e).view b) (s'.view b) ∧
      (s'.view b).serial < s'.next := by
  have hwf := hw.events e he
  rw [Event.wf, hcb] at hwf
  obtain ⟨hf, hfl, -, -⟩ := hwf
  have ho : e.oneshot = true := by simp [Event.oneshot, hfl]
  obtain ⟨v, hv⟩ := Option.isSome_iff_exists.mp (hw.eventVms e he b hd)
  obtain ⟨k, k', ht, ev⟩ := view_delivered_timer hw he harm hf ho hd hv
  replace h := get_bind h
  have hv' : (s.delivered e).vm? b = some v := hv
  simp only [hv'] at h
  obtain ⟨g, hfires, hser⟩ := onTimerVm_spec ((delivered_wf hw).ready hv') h
  rw [hcb] at ev
  exact ⟨v, k, k', hv, ht, ev, g, hfires, hser⟩

theorem onTimer_handles (hw : WF s) (he : e ∈ s.eventList) (hcb : e.cb = .onTimer)
    (hd : e.data = .vm b) (harm : e.armed = true) (h : onTimer env b (s.delivered e) = .ok (u, s')) :
    Handles env e s s' := by
  obtain ⟨v, k, k', hv, ht, ev, g, hfires, hser⟩ := onTimer_fires hw he hcb hd harm h
  rw [ev] at hfires
  exact .of_acts hw he hd (by rw [hv]; rfl) g.within hser (.timer ht (view_state hv) hfires)
    fun _ => g.holds (holds_delivered he)

/-- `on_read_vm_output` for an event in the list: the VM is only told. -/
theorem onReadVmOutput_reads (hw : WF s) (he : e ∈ s.eventList) (hcb : e.cb = .onReadVmOutput) (hd : e.data = .vm b)
    (h : onReadVmOutput b e.ident r (s.delivered e) = .ok (u, s')) :
    ∃ v, s.vm? b = some v ∧ Within b (s.delivered e) s' ∧
      s'.view b = (s.view b).note (.deliver b .onReadVmOutput e.purpose v.state (s.view b).serial) := by
  have ho : e.oneshot = false := by
    have hwf := hw.events e he
    rw [Event.wf, hcb] at hwf
    simp [Event.oneshot, hwf.2.1]
  obtain ⟨v, hv⟩ := Option.isSome_iff_exists.mp (hw.eventVms e he b hd)
  have ev := view_delivered_read ho hd hv
  replace h := get_bind h
  have hv' : (s.delivered e).vm? b = some v := hv
  simp only [hv'] at h
  obtain ⟨rc, s1, h1, h⟩ := of_bind h
  have q1 := preserved (R := Silent b) h1
  have key : Within b s1 s' ∧ s'.view b = s1.view b := by
    split at h
    · refine stopReading_spec (fun x hx => ?_) (fun x => by simp [vmReadOf]) h
      simp only [vmReadOf, Bool.and_eq_true, beq_iff_eq] at hx
      exact ⟨hx.1.1, hx.2⟩
    · cases h
      exact ⟨refl_of (Within b) _, rfl⟩
  exact ⟨v, hv, q1.within.trans key.1, by rw [key.2, q1.view, ev, hcb]⟩

theorem onReadVmOutput_handles (hw : WF s) (he : e ∈ s.eventList) (hcb : e.cb = .onReadVmOutput) (hd : e.data = .vm b)
    (h : onReadVmOutput b e.ident r (s.delivered e) = .ok (u, s')) : Handles env e s s' := by
  have ho : e.oneshot = false := by
    have hwf := hw.events e he
    rw [Event.wf, hcb] at hwf
    simp [Event.oneshot, hwf.2.1]
  obtain ⟨v, hv, hin, e2⟩ := onReadVmOutput_reads hw he hcb hd h
  have hsome : (s.vm? b).isSome := by rw [hv]; rfl
  refine .of_acts hw he hd hsome hin ?_ (by rw [e2]; exact .output _ _) fun ho' => by rw [ho] at ho'; cases ho'
  rw [e2]
  exact Nat.lt_of_lt_of_le (hw.view_serial hsome) hin.next

/-! ## The exit callback -/

/-- Reaping a process. -/
def Daemon.reaped (s : Daemon) (pid : Pid) : Daemon :=
  { s with tick := s.tick + 1, procs := s.procs.filter (·.pid != pid) }

theorem view_reaped (pid : Pid) (a : Addr) : (s.reaped pid).view a = (s.view a).reap pid := by
  have hp : (s.procs.filter (·.pid != pid)).filter (·.owner == a) =
      (s.procs.filter (·.owner == a)).filter (·.pid != pid) := by
    rw [List.filter_filter, List.filter_filter]
    simp only [Bool.and_comm]
  show ({ s.view a with procs := (s.procs.filter (·.pid != pid)).filter (·.owner == a) } : View) = _
  rw [hp]
  rfl

theorem reaped_tidy (hw : WF s) : Tidy s (s.reaped pid) :=
  ⟨{ hw with
      owned := ⟨hw.owned.nodup, hw.owned.bound⟩
      pids := hw.pids.sublist (List.filter_sublist.map _)
      owners := fun p hp => hw.owners p (List.mem_filter.mp hp).1 },
    SockKept.of_eq rfl rfl (Nat.le_refl _), Nat.le_refl _, .of_subset fun _ => id, fun _ => id, fun _ => id⟩

/-- What `on_vm_exit` records of an exit. -/
def Daemon.exitOf (s : Daemon) (v : VmEntry) (status : Nat) : Exited :=
  { vm := v.addr, serial := v.serial, state := v.state, conf := s.vmConf v.addr, status := status }

/-- The exit is recorded. -/
def Daemon.recorded (s : Daemon) (r : Exited) : Daemon := { s with exits := r :: s.exits }

theorem view_recorded {r : Exited} (hr : r.vm = a) : (s.recorded r).view a = (s.view a).exited r := by
  simp only [Daemon.recorded, Daemon.view, View.exited, List.filter_cons, hr, beq_self_eq_true, if_true]
  rfl

theorem view_recorded_of_ne {r : Exited} (hr : a ≠ r.vm) : (s.recorded r).view a = s.view a := by
  have hne : ¬(r.vm == a) = true := by simpa using Ne.symm hr
  simp only [Daemon.recorded, Daemon.view, List.filter_cons, if_neg hne]
  rfl

theorem recorded_tidy (r : Exited) (hw : WF s) : Tidy s (s.recorded r) :=
  ⟨{ hw with owned := ⟨hw.owned.nodup, hw.owned.bound⟩ },
    SockKept.of_eq rfl rfl (Nat.le_refl _), Nat.le_refl _, .of_subset fun _ => id, fun _ => id, fun _ => id⟩

/-- The state in which the exit callback acts on the status: the process of the VM is reaped. -/
def Daemon.waited (s : Daemon) (v : VmEntry) (ident : Pid) (status : Nat) : Daemon :=
  ((s.note (.wait v.addr ident v.pid (s.hasExited v.pid))).reaped v.pid).recorded (s.exitOf v status)

theorem waited_tidy (ident : Pid) (status : Nat) (hw : WF s) (hv : v ∈ s.vmList) :
    Tidy s (s.waited v ident status) := by
  have t1 : Tidy s (s.note (.wait v.addr ident v.pid (s.hasExited v.pid))) :=
    note_tidy (fun a ha => by cases ha; exact hw.vmBound v hv) hw
  have t2 : Tidy _ ((s.note (.wait v.addr ident v.pid (s.hasExited v.pid))).reaped v.pid) := reaped_tidy t1.wf
  exact (t1.trans t2).trans (recorded_tidy _ t2.wf)

/-- The callback decides by the exit it has just recorded. -/
theorem waited_again (ident : Pid) (status : Nat) (hv : v.addr = b) :
    ((s.waited v ident status).view b).Again ((s.vmConf v.addr).restarts status) := by
  have hrec : (s.exitOf v status).vm = b := hv
  rw [Daemon.waited, view_recorded hrec]
  intro r hr
  obtain rfl : s.exitOf v status = r := Option.some.inj hr
  rfl

/-- The status of a child that has exited. -/
def Daemon.exitStatus (s : Daemon) (pid : Pid) : Option Nat := (s.procs.find? (·.pid == pid)).bind (·.status)

theorem waitpid_status {x : Nat} {killed : Bool} (hs : s.exitStatus pid = some status)
    (h : waitpid env pid killed s = .ok (x, s')) : x = status := by
  replace h := get_bind h
  obtain ⟨unset, s2, h2, h⟩ := of_bind h
  obtain ⟨_, _, -, h⟩ := of_bind h
  obtain ⟨_, s3, h3, h⟩ := of_bind h
  obtain ⟨p, hp, hst⟩ := Option.bind_eq_some_iff.mp hs
  rw [hp] at h
  have hx := (pure_ok.mp h).1
  rw [hst] at hx
  exact hx.symm

/-- `on_vm_exit` for an existing VM, up to the reaping. -/
theorem onVmExitVm_waited {ident : Pid} (h : onVmExitVm env v ident s = .ok (u, s')) :
    ∃ status, onVmExitStatus env v (s.vmConf v.addr) status (s.waited v ident status) = .ok (u, s') ∧
      ∀ st, s.exitStatus v.pid = some st → status = st := by
  obtain ⟨_, s1, h1, h⟩ := of_bind h
  have hs1 := of_modify h1
  obtain ⟨status, s2, h2, h⟩ := of_bind h
  have hs2 := (waitpid_spec h2).1
  obtain ⟨conf, s3, h3, h⟩ := of_bind h
  obtain ⟨hconf, rfl⟩ := getVmConf_ok h3
  refine ⟨status, ?_, fun st hst => waitpid_status (by rw [hs1]; exact hst) h2⟩
  have hc : s.vmConf v.addr = conf := by
    rw [← hconf, hs2, hs1]
    rfl
  obtain ⟨_, s4, h4, h⟩ := of_bind h
  rw [Daemon.waited, Daemon.exitOf, ← hs1, hc]
  rw [of_modify h4, hs2] at h
  exact h

/-- The case `REMOVE`: the entry goes with all its events, the one being delivered included. -/
theorem onVmRemoved_spec (hw : WF s) (hsome : (s.vm? b).isSome)
    (h : onVmRemoved env b s = .ok (u, s')) :
    Tidy s s' ∧ s'.view b = ((s.view b).stop b).gone ∧ ∀ a, a ≠ b → s'.view a = s.view a := by
  obtain ⟨_, s1, h1, h⟩ := of_bind h
  obtain ⟨w1, e1⟩ := stopVirtualMachine_spec hsome h1
  have hser : (s1.view b).serial < s1.next := by
    rw [e1]
    exact Nat.lt_of_lt_of_le (hw.view_serial hsome) w1.next
  have t1 := w1.tidy hsome hser hw
  replace h := getVm_bind h
  obtain ⟨v, hv⟩ := Option.isSome_iff_exists.mp (w1.isSome hsome)
  rw [vmOf_of_vm? hv] at h
  obtain ⟨_, s3, h3, h⟩ := of_bind h
  obtain ⟨_, s4, h4, h⟩ := of_bind h
  rw [addr_of_vm? hv] at h4
  obtain ⟨t4, hgone, hothers⟩ := forget_spec t1.wf h3 (refl_of ConfSide s3) h4
  have k5 := (freeVmConfEntry_confSide _ _ _ _ h).calm t4.wf
  refine ⟨(t1.trans t4).trans k5.1, ?_, fun a ha => ?_⟩
  · rw [k5.2, hgone, e1]
  · rw [k5.2, hothers a ha, w1.view ha]

theorem onVmExitStatus_remove {conf : VmConf} (hv : v.state = .remove) :
    onVmExitStatus env v conf status = onVmRemoved env v.addr := by
  simp only [onVmExitStatus, hv]

theorem onVmExit_handles (hw : WF s) (he : e ∈ s.eventList) (hcb : e.cb = .onVmExit)
    (hd : e.data = .vm b) (hdel : s.deliverable e = true)
    (h : onVmExit env b e.ident (s.delivered e) = .ok (u, s')) : Handles env e s s' := by
  have hwf := hw.events e he
  rw [Event.wf, hcb] at hwf
  obtain ⟨hf, hfl, -, -⟩ := hwf
  have ho : e.oneshot = true := by simp [Event.oneshot, hfl]
  simp only [Daemon.deliverable, Bool.and_eq_true] at hdel
  have hsome := hw.eventVms e he b hd
  obtain ⟨v, hv⟩ := Option.isSome_iff_exists.mp hsome
  have hva := addr_of_vm? hv
  obtain ⟨k, k', ht, ev⟩ := view_delivered_wait hw he hdel.1.1 hf ho hd hv
  replace h := get_bind h
  have hv' : (s.delivered e).vm? b = some v := hv
  simp only [hv'] at h
  obtain ⟨status, h, -⟩ := onVmExitVm_waited h
  have hwd := delivered_wf (e := e) hw
  have tw : Tidy (s.delivered e) ((s.delivered e).waited v e.ident status) := waited_tidy _ _ hwd (mem_of_vm? hv')
  obtain ⟨st, hst⟩ : ∃ st, st = (s.delivered e).waited v e.ident status := ⟨_, rfl⟩
  obtain ⟨rec, hrec⟩ : ∃ r, r = (s.delivered e).exitOf v status := ⟨_, rfl⟩
  have hrb : rec.vm = b := by rw [hrec]; exact hva
  rw [← hst] at h tw
  -- the views when the callback looks at the state of its VM
  have eb : st.view b = ((({ s.view b with waits := k ++ k' }.note
      (.deliver b .onVmExit e.purpose v.state (s.view b).serial)).note
      (.wait b e.ident (s.view b).pid (s.hasExited v.pid))).reap (s.view b).pid).exited rec := by
    rw [hst, Daemon.waited, ← hrec, view_recorded hrb, view_reaped, hva, view_note rfl, ev, hcb, view_pid, vmOf_of_vm? hv]
    rfl
  have eo : ∀ a, a ≠ b → st.view a = (s.view a).reap v.pid := by
    intro a ha
    rw [hst, Daemon.waited, ← hrec, view_recorded_of_ne (by rw [hrb]; exact ha), view_reaped,
      view_note_of_ne (b := b) (by rw [hva]; rfl) ha, view_delivered_of_ne hw he (fun h => ha (by rw [hd] at h; cases h; rfl))]
  have hother : ∀ a, a ≠ b → LifeStar env (s.theft e) a (s.view a) (st.view a) := by
    intro a ha
    rw [eo a ha]
    by_cases hp : ∃ p ∈ s.procs, p.pid = v.pid ∧ p.owner = a
    · obtain ⟨p, hp, hpid, hpo⟩ := hp
      refine .single (.stolen _ ⟨hcb, b, hd, p, hp, by rw [hpid, vmOf_of_vm? hv], by rw [hpo]; exact ha⟩)
    · have hnone : (s.view a).reap v.pid = s.view a := by
        have hfil : (s.view a).procs.filter (·.pid != v.pid) = (s.view a).procs := by
          rw [List.filter_eq_self]
          intro p hpm
          obtain ⟨hpm, hpo⟩ := List.mem_filter.mp hpm
          have : p.pid ≠ v.pid := fun hpid => hp ⟨p, hpm, hpid, eq_of_beq hpo⟩
          simpa using this
        show ({ s.view a with procs := _ } : View) = _
        rw [hfil]
      rw [hnone]
  have hdead : ∀ q ∈ (s.view b).procs, q.pid = e.ident → q.status ≠ none := by
    intro q hq hpid hnone
    have hany := hdel.2
    rw [hf, Bool.not_eq_true'] at hany
    have : s.procs.any (fun p => p.pid == e.ident && p.status.isNone) = true :=
      List.any_eq_true.mpr ⟨q, (List.mem_filter.mp hq).1, by simp [hpid, hnone]⟩
    rw [this] at hany
    cases hany
  have hx : (∃ q ∈ (s.view b).procs, q.pid = (s.view b).pid ∧ q.status ≠ none) → s.hasExited v.pid = true := by
    rintro ⟨q, hq, hpid, hstat⟩
    refine List.any_eq_true.mpr ⟨q, (List.mem_filter.mp hq).1, ?_⟩
    rw [view_pid, vmOf_of_vm? hv] at hpid
    simp [hpid, Option.isSome_iff_ne_none, hstat]
  have hbst : (st.vm? b) = some v := by rw [hst]; exact hv
  have hrs : rec.state = v.state ∧ rec.serial = (s.view b).serial := by
    rw [hrec, view_serial, vmOf_of_vm? hv]
    exact ⟨rfl, rfl⟩
  have hagain : (st.view b).Again (((s.delivered e).vmConf v.addr).restarts status) := by
    rw [hst]
    exact waited_again e.ident status hva
  have hsome' : (st.vm? b).isSome := by rw [hbst]; rfl
  by_cases hrem : v.state = .remove
  · rw [onVmExitStatus_remove hrem, hva] at h
    obtain ⟨t2, e2, o2⟩ := onVmRemoved_spec tw.wf hsome' h
    refine ⟨tw.trans t2, fun a => ?_, fun _ hnr => (hnr ⟨hcb, b, hd, ?_⟩).elim⟩
    · by_cases ha : a = b
      · subst ha
        rw [e2, eb]
        exact .single (.exit ht (view_state hv) hdead hx hrs (.removed (by rw [← eb, view_state hbst, hrem])))
      · rw [o2 a ha]
        exact hother a ha
    · rw [View.Leaving, view_state hv, hrem]
  · obtain ⟨w2, hex, hser⟩ := onVmExitStatus_spec (tw.wf.ready hbst) hrem hagain h
    refine ⟨tw.trans (w2.tidy hsome' hser tw.wf), fun a => ?_, fun _ _ => ?_⟩
    · by_cases ha : a = b
      · subst ha
        rw [eb] at hex
        exact .single (.exit ht (view_state hv) hdead hx hrs hex)
      · rw [w2.view ha]
        exact hother a ha
    · -- the event that is being delivered waits for a process
      obtain ⟨l, l', hl, h1, h2⟩ := hw.split_event he
      have hmem : ({ e with armed := false } : Event) ∈ st.eventList := by
        rw [hst]
        show _ ∈ (s.delivered e).eventList
        rw [delivered_of_split hl h1 h2 ho]
        simp
      exact w2.holds (x := { e with armed := false }) hmem hf

/-! ## All callbacks -/

theorem Handles.of_moves (hw : WF s) (he : e ∈ s.eventList) (hd : ∀ b, e.data ≠ .vm b) (ho : e.oneshot = false)
    (h : Moves env (s.theft e) (s.delivered e) s') : Handles env e s s' := by
  obtain ⟨t, l⟩ := h (delivered_wf hw)
  refine ⟨t, fun a => ?_, fun ho' => by rw [ho] at ho'; cases ho'⟩
  have := l a
  rwa [view_delivered_of_ne hw he (hd a)] at this

theorem armed_of_deliverable (h : s.deliverable e = true) : e.armed = true := by
  simp only [Daemon.deliverable, Bool.and_eq_true] at h
  exact h.1.1

/-- **Every callback** does to the VMs what `Life` allows. -/
theorem callback_handles (hw : WF s) (he : e ∈ s.eventList)
    (hdel : s.deliverable e = true) (h : callback env e io (s.delivered e) = .ok (u, s')) :
    Handles env e s s' := by
  have hwf := hw.events e he
  have harm := armed_of_deliverable hdel
  have hnull : ∀ {d : Data}, d = .null → ∀ b, d ≠ .vm b := by rintro d rfl b h; cases h
  have hsock : ∀ {d : Data} {c : Addr}, d = .sock c → ∀ b, d ≠ .vm b := by rintro d c rfl b h; cases h
  cases hcb : e.cb <;> simp only [Event.wf, hcb] at hwf
  case onTimer =>
    obtain ⟨-, -, -, b, hd⟩ := hwf
    simp only [callback, hcb, hd] at h
    exact onTimer_handles hw he hcb hd harm h
  case onVmExit =>
    obtain ⟨-, -, -, b, hd⟩ := hwf
    simp only [callback, hcb, hd] at h
    exact onVmExit_handles hw he hcb hd hdel h
  case onReadVmOutput =>
    obtain ⟨-, -, -, b, hd⟩ := hwf
    simp only [callback, hcb, hd] at h
    exact onReadVmOutput_handles hw he hcb hd h
  case onRecvSockBuf =>
    obtain ⟨-, hfl, -, b, hd⟩ := hwf
    simp only [callback, hcb, hd] at h
    exact .of_moves hw he (hsock hd) (by simpa [Event.oneshot] using hfl) (serves_moves.onRecvSockBuf _ _ _ _ _ h)
  case onSendSockBuf =>
    obtain ⟨-, hfl, -, b, hd⟩ := hwf
    simp only [callback, hcb, hd] at h
    exact .of_moves hw he (hsock hd) (by simpa [Event.oneshot] using hfl) (onSendSockBuf_apart _ _ _ _ _ h).calm.moves
  case onAcceptCmdSock =>
    obtain ⟨-, hfl, -, hd⟩ := hwf
    simp only [callback, hcb] at h
    exact .of_moves hw he (hnull hd) (by simp [Event.oneshot, hfl]) (onAcceptCmdSock_apart _ _ _ _ h).calm.moves
  case onSigterm =>
    obtain ⟨-, hfl, -, hd⟩ := hwf
    simp only [callback, hcb] at h
    exact .of_moves hw he (hnull hd) (by simp [Event.oneshot, hfl]) (onSigterm_apart _ _ _ h).calm.moves
  case onSighup =>
    obtain ⟨-, hfl, -, hd⟩ := hwf
    simp only [callback, hcb] at h
    obtain ⟨_, s1, h1, h⟩ := of_bind h
    cases h
    exact .of_moves hw he (hnull hd) (by simp [Event.oneshot, hfl]) (reloadVirtualMachines_moves _ _ _ h1)
  case plugin =>
    obtain ⟨-, hd⟩ := hwf
    have hpure : s' = s.delivered e := by
      simp only [callback, hcb] at h
      exact (pure_ok.mp h).2.symm
    subst hpure
    refine ⟨.refl (delivered_wf hw), fun a => ?_, fun _ _ => holds_delivered he⟩
    rw [view_delivered_of_ne hw he (hnull hd a)]

/-! ## The end of a delivery -/

theorem releaseEvent_owned (h : releaseEvent x s = .ok (u, s')) (ho : s.EventsOwned) : s'.EventsOwned := by
  have hs' := of_modify h
  split at hs'
  · next hany =>
    obtain ⟨e, he, hex⟩ := List.any_eq_true.mp hany
    have hperm : (s'.eventList.map (·.addr) ++ s'.freedEvents).Perm (s.eventList.map (·.addr) ++ s.freedEvents) := by
      have hnd : (s.eventList.map (·.addr)).Nodup := (List.nodup_append.mp ho.nodup).1
      have hfil : (s.eventList.filter (·.addr != x)).map (·.addr) = (s.eventList.map (·.addr)).erase x := by
        rw [hnd.erase_eq_filter, List.filter_map]
        rfl
      rw [hs']
      show ((s.eventList.filter _).map _ ++ x :: s.freedEvents).Perm _
      rw [hfil]
      have hmem : x ∈ s.eventList.map (·.addr) := (eq_of_beq hex) ▸ List.mem_map_of_mem he
      exact List.perm_middle.trans (((List.perm_cons_erase hmem).symm).append_right _)
    have hnext : s'.next = s.next := by rw [hs']
    exact ⟨hperm.nodup_iff.mpr ho.nodup, fun y hy => by rw [hnext]; exact ho.bound y (hperm.subset hy)⟩
  · rw [hs']
    exact ⟨ho.nodup, ho.bound⟩

theorem releaseEvent_events (h : releaseEvent x s = .ok (u, s')) : s'.eventList = s.eventList.filter (·.addr != x) := by
  have hs' := of_modify h
  split at hs'
  · rw [hs']
  · next hany =>
    rw [hs']
    refine (List.filter_eq_self.mpr fun e he => ?_).symm
    have : ¬(e.addr == x) = true := fun hc => hany (List.any_eq_true.mpr ⟨e, he, hc⟩)
    simpa using this

/-- The dispatcher records a fault exactly when the event is not in the list any more. -/
theorem releaseEvent_faults (h : releaseEvent x s = .ok (u, s')) (hx : s.holds x) : s'.faults = s.faults := by
  have hs' := of_modify h
  obtain ⟨e, he, hex⟩ := hx
  rw [if_pos (List.any_eq_true.mpr ⟨e, he, by simp [hex]⟩)] at hs'
  rw [hs']

/-- The state after `releaseEvent` apart from the events. -/
theorem releaseEvent_rest (h : releaseEvent x s = .ok (u, s')) :
    { s' with eventList := [], freedEvents := [], faults := [], memory := {} } =
      { s with eventList := [], freedEvents := [], faults := [], memory := {} } := by
  have hs' := of_modify h
  split at hs' <;> rw [hs']

/-- A one-shot event on a descriptor can only be one of a plugin. -/
theorem plugin_of_oneshot_fd (hwf : e.wf) (ho : e.oneshot = true) (hfd : e.filter = .read ∨ e.filter = .write) :
    e.data = .null := by
  have hfl : e.flags = .oneshot := by simpa [Event.oneshot] using ho
  cases hcb : e.cb <;> simp only [Event.wf, hcb, hfl] at hwf <;> simp_all

/-- Every event that is not on a descriptor has its knote. -/
def Daemon.Armed (s : Daemon) : Prop := ∀ e ∈ s.eventList, e.blank.armed = true

theorem Tidy.armed (h : Tidy s s') (hs : s.Armed) : s'.Armed := by
  intro e he
  rcases h.events e he with ⟨e', he', -, -, hb⟩ | ⟨-, hb⟩
  · rw [← hb]
    exact hs e' he'
  · exact hb

/-- **What a step does**, but for what idle timeouts and the exit of a removed VM break. -/
structure Stepped (env : Env) (theft : Prop) (s s' : Daemon) : Prop where
  wf : WF s'
  armed : s.Armed → s'.Armed
  life : ∀ a, LifeStar env theft a (s.view a) (s'.view a)

theorem Moves.stepped {theft : Prop} (h : Moves env theft s s') (hw : WF s) : Stepped env theft s s' :=
  ⟨(h hw).1.wf, (h hw).1.armed, (h hw).2⟩

theorem mem_released (h : releaseEvent x s = .ok (u, s')) {y : Event}
    (hy : y ∈ s'.eventList) : y ∈ s.eventList ∧ y.addr ≠ x := by
  rw [releaseEvent_events h] at hy
  exact ⟨(List.mem_filter.mp hy).1, by simpa using (List.mem_filter.mp hy).2⟩

theorem releaseEvent_wf (h : releaseEvent x s = .ok (u, s')) (hw : WF s) : WF s' :=
  hw.of_lists (congrArg Daemon.lists (releaseEvent_rest h) :) (Nat.le_of_eq (congrArg Daemon.next (releaseEvent_rest h).symm :))
    (fun y hy => hw.events y (mem_released h hy).1) (releaseEvent_owned h hw.owned)
    fun y hy a hd => hw.eventVms y (mem_released h hy).1 a hd

theorem releaseEvent_socks (h : releaseEvent x s = .ok (u, s')) : SockKept s s' := by
  have hrest := releaseEvent_rest h
  have hsb : s'.sockList = s.sockList := (congrArg Daemon.sockList hrest :)
  have hn : s'.next = s.next := (congrArg Daemon.next hrest :)
  exact .of_data (fun y hy _ _ => ⟨y, (mem_released h hy).1, rfl⟩) (fun a => by simp only [Daemon.sock?, hsb])
    (Nat.le_of_eq hn.symm)

/-- An event without a knote, or without a VM, is in no view. -/
theorem releaseEvent_view (h : releaseEvent x s = .ok (u, s'))
    (hx : ∀ y ∈ s.eventList, y.addr = x → y.blank.armed = false ∨ y.data = .null) (a : Addr) :
    s'.view a = s.view a := by
  have key : ∀ q : Event → Bool, (∀ y, q y = true → y.data = .vm a ∧ y.blank.armed = true) →
      s'.eventList.filter q = s.eventList.filter q := by
    intro q hq
    rw [releaseEvent_events h, List.filter_filter]
    refine List.filter_congr fun y hy => ?_
    cases hqy : q y with
    | false => rfl
    | true =>
      have hne : y.addr ≠ x := by
        intro hyx
        obtain ⟨hd, hb⟩ := hq y hqy
        rcases hx y hy hyx with h1 | h1
        · rw [h1] at hb; cases hb
        · rw [h1] at hd; cases hd
      simp [hne]
  refine view_of_seen (congrArg Daemon.seen (releaseEvent_rest h) :) (congrArg (List.map _) (key (·.isTimerOf a) fun y hy => ?_))
    (congrArg (List.map _) (key (·.isWaitOf a) fun y hy => ?_))
  · exact ⟨(Event.isTimerOf_iff.mp hy).1, Event.blank_armed (Event.isTimerOf_iff.mp hy).2.2⟩
  · exact ⟨(Event.isWaitOf_iff.mp hy).1, Event.blank_armed (Event.isWaitOf_iff.mp hy).2.2⟩

/-- After the callback, the delivered event has no knote or belongs to a plugin. -/
theorem Handles.spent (hh : Handles env e s t) (hw : WF s) (he : e ∈ s.eventList) (ho : e.oneshot = true) :
    ∀ x ∈ t.eventList, x.addr = e.addr → x.blank.armed = false ∨ x.data = .null := by
  intro x hx hxe
  rcases hh.tidy.events x hx with ⟨e1, he1, ha1, hd1, hb1⟩ | ⟨hlo, -⟩
  · obtain ⟨y, hy, ⟨rfl, hy'⟩ | ⟨rfl, hye, -⟩⟩ := mem_delivered he1
    · rcases hy' with hne | hno
      · exact (hne (ha1.trans hxe)).elim
      · rw [ho] at hno; cases hno
    · have := hw.event_unique he hy hye
      subst this
      by_cases hfd : y.filter = .read ∨ y.filter = .write
      · right
        rw [← hd1]
        exact plugin_of_oneshot_fd (hw.events y he) ho hfd
      · left
        push Not at hfd
        rw [← hb1, Event.blank_of_not_fd (e := { y with armed := false }) hfd.1 hfd.2]
  · have h1 := hw.owned.bound e.addr (List.mem_append_left _ (List.mem_map_of_mem he))
    exact absurd h1 (Nat.not_lt.mpr (hxe ▸ hlo))

/-- After the callback, the dispatcher changes nothing that a VM sees. -/
theorem dispatch_callback (hw : WF s) (he : e ∈ s.eventList) (hdel : s.deliverable e = true)
    (h : dispatch env e io s = .ok (u, s')) :
    ∃ t, callback env e io (s.delivered e) = .ok ((), t) ∧ s'.phase = t.phase ∧ ∀ a, s'.view a = t.view a := by
  obtain ⟨_, s1, h1, h⟩ := of_bind h
  rw [deliver_ok h1] at h
  obtain ⟨_, t, h2, h⟩ := of_bind h
  refine ⟨t, h2, ?_⟩
  cases ho : e.oneshot with
  | false =>
    simp only [whenever, ho] at h
    cases h
    exact ⟨rfl, fun _ => rfl⟩
  | true =>
    simp only [whenever, ho, if_true] at h
    exact ⟨(congrArg Daemon.phase (releaseEvent_rest h) :),
      releaseEvent_view h ((callback_handles hw he hdel h2).spent hw he ho)⟩

/-- **The delivery of an event.** -/
theorem dispatch_stepped (hw : WF s) (he : e ∈ s.eventList)
    (hdel : s.deliverable e = true) (h : dispatch env e io s = .ok (u, s')) :
    Stepped env (s.theft e) s s' ∧ SockKept s s' ∧
      (¬s.removing e → ∀ x, .eventFree x ∈ s'.faults → .eventFree x ∈ s.faults) := by
  obtain ⟨_, s1, h1, h⟩ := of_bind h
  rw [deliver_ok h1] at h
  obtain ⟨_, t, h2, h⟩ := of_bind h
  have hh := callback_handles hw he hdel h2
  have hsk : SockKept s t := fun hs => hh.tidy.socks (delivered_socks hs)
  cases ho : e.oneshot with
  | false =>
    simp only [whenever, ho] at h
    cases h
    refine ⟨⟨hh.tidy.wf, fun ha => hh.tidy.armed ?_, hh.life⟩, hsk, fun _ => hh.tidy.faults⟩
    intro x hx
    rw [delivered_of_not_oneshot ho] at hx
    exact ha x hx
  | true =>
    simp only [whenever, ho, if_true] at h
    refine ⟨⟨releaseEvent_wf h hh.tidy.wf, fun ha x hx => ?_, fun a => ?_⟩,
      trans_of SockKept hsk (releaseEvent_socks h), fun hnr x hx => ?_⟩
    · -- only the delivered event has lost its knote, and it is not in the list any more
      obtain ⟨hxt, hne⟩ := mem_released h hx
      rcases hh.tidy.events x hxt with ⟨e1, he1, ha1, -, hb1⟩ | ⟨-, hb⟩
      · obtain ⟨y, hy, ⟨rfl, -⟩ | ⟨rfl, hye, -⟩⟩ := mem_delivered he1
        · rw [← hb1]; exact ha _ hy
        · exact (hne (ha1.symm.trans hye)).elim
      · exact hb
    · rw [releaseEvent_view h (hh.spent hw he ho)]
      exact hh.life a
    · rw [releaseEvent_faults h (hh.holds ho hnr)] at hx
      exact hh.tidy.faults x hx

end Bmd
