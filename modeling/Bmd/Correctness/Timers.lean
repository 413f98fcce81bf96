import Bmd.Correctness.Lifecycle

/-!
# `Correctness.Timers` — what timers were armed for, and what they do

The timers of the daemon carry no kind: `on_timer` decides from the state of the VM alone. It does what the timer
was armed for as long as the pending timers fit the state (`Fit`): in `TERMINATE` only those that start the VM, in
the states with a process only those armed for that process; in `RUN` a timer is ignored, so any will do. `timely`
names the places where the state changes under timers that are left over.
-/

namespace Bmd

open Lib Lib.Prog

variable {env : Env} {theft : Prop} {a : Addr} {v w : View} {l : List Action} {st : State}

/-! ## The log only grows -/

theorem suffix_poweroff {opened : Bool} : v.log <:+ (v.poweroff a opened).log := ⟨[_, _], rfl⟩

theorem Supervised.suffix (h : Supervised env a v w) : v.log <:+ w.log := by
  cases h with
  | waiting => exact ⟨[], rfl⟩
  | timed _ _ _ => exact ⟨[_], rfl⟩
  | @abandoned wt opened _ =>
    have hp : v.log <:+ ((v.waitIf wt v.pid).poweroff a opened).log := by
      cases wt <;> exact suffix_poweroff
    exact hp.trans ⟨[_], rfl⟩

theorem Starts.suffix (h : Starts env a v w) : v.log <:+ w.log := by
  cases h with
  | refused => exact ⟨[], rfl⟩
  | failed => exact ⟨[_], rfl⟩
  | started _ _ hw => exact List.IsSuffix.trans ⟨[_, _], rfl⟩ hw.suffix

theorem Fires.suffix (h : Fires env a v w) : v.log <:+ w.log := by
  cases h with
  | start _ h => exact h.suffix
  | poweroff => exact suffix_poweroff
  | ignored => exact ⟨[], rfl⟩

theorem Exits.suffix (h : Exits env a v w) : v.log <:+ w.log := by
  cases h with
  | loaded _ h | rebooted _ h => exact h.suffix
  | loadFailed | stopped | removed => exact ⟨[_], rfl⟩
  | restarting => exact ⟨[_, _, _], rfl⟩
  | stale => exact ⟨[], rfl⟩

theorem Life.suffix (h : Life env theft a v w) : v.log <:+ w.log := by
  cases h with
  | childExit | stolen | create | drop => exact ⟨[], rfl⟩
  | timer _ _ h => exact List.IsSuffix.trans ⟨[_], rfl⟩ h.suffix
  | exit _ _ _ _ _ h => exact List.IsSuffix.trans ⟨[_, _], rfl⟩ h.suffix
  | output | schedule | downIdle | reset | redirect | boot | reload => exact ⟨[_], rfl⟩
  | start _ _ h => exact h.suffix
  | stopFor => exact ⟨[_, _, _, _], rfl⟩
  | shutdown => exact ⟨[_, _, _, _, _], rfl⟩
  | @poweroff st _ =>
    have h1 : v.log <:+ (v.note (.down a st v.timers)).log := ⟨[_], rfl⟩
    exact (h1.trans suffix_poweroff).trans ⟨[_], rfl⟩
  | terminating => exact ⟨[_, _, _], rfl⟩

/-! ## Timers that fit -/

/-- The timer was armed to start the VM. -/
def ToStart (p : Option Purpose) : Prop := p = some .bootDelay ∨ p = some .restart

/-- The timer was armed when the process `n` was started as a loader, or when it was asked to stop. -/
def ForProcess (n : Nat) (p : Option Purpose) : Prop := p = some (.loader n) ∨ p = some (.stop n)

/-- **The pending timers fit the state** of the VM. -/
structure View.Fit (v : View) : Prop where
  idle : v.state = none ∨ v.state = some .terminate → ∀ p ∈ v.timers, ToStart p
  busy : ∀ st, v.state = some st → st ≠ .terminate → st ≠ .run → ∀ p ∈ v.timers, ForProcess v.serial p

/-- The state was not changed under timers left over from another purpose: none is pending when a loader is
    started, none but those that start the VM when it becomes idle, and none but the stop timers of the process
    when a running VM is asked to stop. -/
def Action.timely : Action → Prop
  | .state _ old new serial pend =>
    (new = .load → pend = []) ∧
    (new = .terminate → old = .terminate ∨ ∀ p ∈ pend, ToStart p) ∧
    (old = .run → new = .stop ∨ new = .restart ∨ new = .remove → ∀ p ∈ pend, p = some (.stop serial))
  | _ => True

instance (p : Option Purpose) : Decidable (ToStart p) := inferInstanceAs (Decidable (_ ∨ _))

instance : DecidablePred Action.timely
  | .state .. => inferInstanceAs (Decidable (_ ∧ _ ∧ _))
  | .deliver .. | .spawn .. | .wait .. | .kill .. | .acpiPoweroff .. | .poweroff .. | .suspend .. | .arm ..
  | .boot .. | .down .. | .reload => isTrue trivial

theorem View.Fit.of_idle (hst : v.state = none ∨ v.state = some .terminate) (h : ∀ p ∈ v.timers, ToStart p) : v.Fit :=
  ⟨fun _ => h, fun st hs hne => by
    rcases hst with h' | h' <;> rw [h'] at hs <;> cases hs
    exact (hne rfl).elim⟩

theorem View.Fit.of_run (hst : v.state = some .run) : v.Fit :=
  ⟨fun h => (by rcases h with h | h <;> rw [hst] at h <;> cases h), fun st hs _ hne => by
    rw [hst] at hs
    cases hs
    exact (hne rfl).elim⟩

theorem View.Fit.of_busy (hst : v.state = some st) (hne : st ≠ .terminate)
    (h : ∀ p ∈ v.timers, ForProcess v.serial p) : v.Fit :=
  ⟨fun h' => (by rcases h' with h' | h' <;> rw [hst] at h' <;> cases h'; exact (hne rfl).elim), fun _ _ _ _ => h⟩

theorem View.Fit.of_same (h : v.Fit) (hst : w.state = v.state) (hser : w.serial = v.serial)
    (ht : ∀ p ∈ w.timers, p ∈ v.timers) : w.Fit :=
  ⟨fun hs p hp => h.idle (hst ▸ hs) p (ht p hp), fun st hs h1 h2 p hp => by
    rw [hser]
    exact h.busy st (hst ▸ hs) h1 h2 p (ht p hp)⟩

/-! ## Moves -/

theorem Starts.fit (h : Starts env a v w) (hv : v.Fit) (hlog : ∀ x ∈ w.log, x.timely) : w.Fit := by
  cases h with
  | refused => exact hv
  | failed =>
    -- the state was written with the timers still pending
    refine .of_idle (.inr rfl) fun p hp => ?_
    have ht : Action.timely (.state a (v.state.getD .terminate) .terminate v.serial v.timers) := hlog _ (.head _)
    rcases ht.2.1 rfl with hold | hpend
    · refine hv.idle ?_ p hp
      cases hs : v.state with
      | none => exact .inl rfl
      | some st => rw [hs] at hold; exact .inr (congrArg some hold)
    · exact hpend p hp
  | @started _ p st hp hst hw =>
    have ht : Action.timely (.state a (v.state.getD .terminate) st p.serial v.timers) :=
      hlog _ (hw.suffix.subset (.head _))
    have hfit : ∀ {z : View}, z.state = some st → z.serial = p.serial → z.timers = v.timers → z.Fit := by
      intro z hz hser htim
      rcases hst with ⟨rfl, -⟩ | ⟨rfl, -⟩
      · exact .of_run hz
      · refine .of_busy hz (by decide) fun q hq => ?_
        rw [htim, ht.1 rfl] at hq
        cases hq
    cases hw with
    | waiting => exact hfit rfl rfl rfl
    | @timed t ok hload _ _ =>
      have hst : st = .load := Option.some.inj hload
      have hne : State.load ≠ .terminate := by decide
      refine .of_busy hload hne fun q hq => ?_
      have hq : q ∈ if ok then some (.loader p.serial) :: v.timers else v.timers := hq
      rw [ht.1 hst] at hq
      cases ok with
      | false => cases hq
      | true => exact .inl (List.mem_singleton.mp hq)
    | @abandoned wt _ =>
      refine .of_idle (.inr rfl) fun q hq => ?_
      have ht : Action.timely (.state a st .terminate p.serial v.timers) := by
        cases wt <;> exact hlog _ (.head _)
      have hq : q ∈ v.timers := by cases wt <;> exact hq
      rcases ht.2.1 rfl with hold | hpend
      · rcases hst with ⟨rfl, -⟩ | ⟨rfl, -⟩ <;> cases hold
      · exact hpend q hq

theorem Fires.fit (h : Fires env a v w) (hv : v.Fit) (hlog : ∀ x ∈ w.log, x.timely) : w.Fit := by
  cases h with
  | start _ h => exact h.fit hv hlog
  | poweroff => exact hv.of_same rfl rfl fun _ => id
  | ignored => exact hv

theorem Exits.fit (h : Exits env a v w) (hv : v.Fit) (hlog : ∀ x ∈ w.log, x.timely) : w.Fit := by
  have hstop : (v.stop a).Fit := .of_idle (.inr rfl) nofun
  cases h with
  | loaded _ h | rebooted _ h => exact h.fit hv hlog
  | loadFailed | stopped => exact hstop
  | @restarting t ok _ _ _ =>
    refine .of_idle (.inr rfl) fun p hp => ?_
    cases ok with
    | false => cases hp
    | true => exact .inr (List.mem_singleton.mp hp)
  | removed => exact .of_idle (.inl rfl) nofun
  | stale => exact hv

theorem View.Fit.requestStop (hv : v.Fit) (hst : v.Active st) (t : Int) (ok : Bool) : (v.requestStop a t ok).Fit := by
  rcases hst.2 with rfl | rfl
  · -- the loader timer and the stop timer are both for the process
    refine .of_busy hst.1 (by decide) fun p hp => ?_
    have hp : p ∈ if ok then some (.stop v.serial) :: v.timers else v.timers := hp
    split at hp
    · rcases List.mem_cons.mp hp with rfl | hp
      · exact .inr rfl
      · exact hv.busy .load hst.1 (by decide) (by decide) p hp
    · exact hv.busy .load hst.1 (by decide) (by decide) p hp
  · exact .of_run hst.1

/-- The change of state that follows a stop request. -/
theorem View.Fit.setStopping {st' : State} (hv : v.Fit) (hst : v.Active st)
    (hst' : st' = .stop ∨ st' = .restart ∨ st' = .remove) (ht : Action.timely (.state a st st' v.serial v.timers)) :
    (v.setState a st').Fit := by
  refine .of_busy rfl (by rcases hst' with rfl | rfl | rfl <;> decide) fun p hp => ?_
  rcases hst.2 with rfl | rfl
  · exact hv.busy .load hst.1 (by decide) (by decide) p hp
  · exact .inr (ht.2.2 rfl hst' p hp)

theorem Life.fit (hv : v.Fit) (hlog : ∀ x ∈ w.log, x.timely) (h : Life env theft a v w) : w.Fit := by
  have head_timely : ∀ {st st' : State} {z : View}, w = z.setState a st' → z.state = some st →
      Action.timely (.state a st st' z.serial z.timers) := by
    rintro st st' z rfl hz
    have := hlog _ (.head _)
    rwa [hz] at this
  cases h with
  | childExit | stolen | output | downIdle | reset | boot | reload => exact hv.of_same rfl rfl fun _ => id
  | timer hl hst h =>
    refine h.fit (hv.of_same rfl rfl fun p hp => ?_) hlog
    rw [hl]
    rcases List.mem_append.mp hp with hp | hp
    · exact List.mem_append_left _ hp
    · exact List.mem_append_right _ (List.mem_cons_of_mem _ hp)
  | exit _ _ _ _ _ h => exact h.fit (hv.of_same rfl rfl fun _ => id) hlog
  | create hu =>
    refine .of_idle (.inr rfl) fun p hp => ?_
    have hp : p ∈ v.timers := hp
    rw [hu.timers] at hp
    cases hp
  | @schedule p t ok _ hst hp _ =>
    refine .of_idle (.inr hst) fun q hq => ?_
    have hq : q ∈ if ok then some p :: v.timers else v.timers := hq
    have hold := hv.idle (.inr hst)
    split at hq
    · rcases List.mem_cons.mp hq with rfl | hq
      · exact hp.imp (congrArg some) (congrArg some)
      · exact hold q hq
    · exact hold q hq
  | start _ _ h => exact h.fit hv hlog
  | stopFor _ hst hst' _ => exact (hv.requestStop hst _ _).setStopping hst hst' (head_timely rfl hst.1)
  | @shutdown st _ _ hst _ =>
    have hn : (v.note (.down a st v.timers)).Fit := hv.of_same rfl rfl fun _ => id
    exact (hn.requestStop hst _ _).setStopping hst (.inl rfl) (head_timely rfl hst.1)
  | @poweroff st opened hst =>
    have hn : ((v.note (.down a st v.timers)).poweroff a opened).Fit := hv.of_same rfl rfl fun _ => id
    exact hn.setStopping hst (.inl rfl) (head_timely rfl hst.1)
  | terminating hst => exact hv.requestStop hst _ _
  | @redirect st st' _ hst h =>
    refine .of_busy rfl h.ne_terminate.2 fun p hp => ?_
    have hrun : st ≠ .run := by rintro rfl; cases st' <;> exact h.elim
    exact hv.busy st hst h.ne_terminate.1 hrun p hp
  | drop => exact .of_idle (.inl rfl) nofun

/-! ## Runs -/

variable {s : Daemon} {t : Daemon} {e : Event} {p : Option Purpose}

theorem reach_fit (h : Reach (bmd env) anyStep s) (hlog : ∀ x ∈ s.log, x.timely) (a : Addr) : (s.view a).Fit := by
  refine reach_life True (P := fun _ v => (∀ x ∈ v.log, x.timely) → v.Fit)
    (fun _ _ => .of_idle (.inl rfl) nofun) (fun a v w hv hl hlogw => ?_)
    (fun _ _ _ _ _ _ _ => trivial) h a fun x hx => hlog x (List.mem_filter.mp hx).1
  exact hl.fit (hv fun x hx => hlogw x (hl.suffix.subset hx)) hlogw

/-! ## What an expiry does -/

/-- A start does not power off the process that the VM had. -/
theorem Starts.no_poweroff (h : Starts env a v w) : ∃ l, w.log = l ++ v.log ∧ .poweroff a v.serial ∉ l := by
  cases h with
  | refused => exact ⟨[], rfl, by simp⟩
  | failed => exact ⟨[_], rfl, by simp⟩
  | @started _ p st hp _ hw =>
    have hne : v.serial ≠ p.serial := Nat.ne_of_lt hp.serial
    cases hw with
    | waiting => exact ⟨[_, _], rfl, by simp⟩
    | timed _ _ _ => exact ⟨[_, _, _], rfl, by simp⟩
    | @abandoned wt opened _ =>
      -- the process that is powered off is the new one
      have hlog : ∃ x, x ≠ .poweroff a v.serial ∧
          ((((v.spawn a p).setState a st).waitIf wt p.pid).poweroff a opened).log =
            [x, .poweroff a p.serial, .state a (v.state.getD .terminate) st p.serial v.timers,
              .spawn a p.serial p.kind] ++ v.log := by
        have hforce : ∀ u : View, u.force a opened ≠ .poweroff a v.serial := fun u =>
          View.force_cases (P := (· ≠ .poweroff a v.serial)) (fun _ => by simp) fun _ => by simp
        cases wt
        · exact ⟨_, hforce _, rfl⟩
        · exact ⟨_, hforce _, rfl⟩
      obtain ⟨x, hx, hlog⟩ := hlog
      refine ⟨_ :: _, congrArg (_ :: ·) hlog, ?_⟩
      simp [hne, Ne.symm hx]

/-- An expiry starts an idle VM, powers off a VM with a process, and does nothing to a running one. -/
theorem Fires.log_cases (h : Fires env a v w) :
    (v.state = some .terminate ∧ ∃ l, w.log = l ++ v.log ∧ .poweroff a v.serial ∉ l) ∨
    (∃ st, v.state = some st ∧ st ≠ .terminate ∧ st ≠ .run ∧
      ∃ x, w.log = [x, .poweroff a v.serial] ++ v.log ∧ ∀ n k, x ≠ .spawn a n k) ∨
    (v.state = some .run ∧ w.log = v.log) := by
  cases h with
  | start hst h => exact .inl ⟨hst, h.no_poweroff⟩
  | @poweroff st opened hst h h' =>
    refine .inr (.inl ⟨st, hst, h, h', ?_⟩)
    refine ⟨v.force a opened, rfl, ?_⟩
    exact View.force_cases (P := fun x => ∀ n k, x ≠ .spawn a n k) (fun _ n k => by simp) fun _ n k => by simp
  | ignored hst => exact .inr (.inr ⟨hst, rfl⟩)

/-- `on_timer`, called for the event `e`, powers off the process of the VM only if the timer was armed for that
    process, and starts the VM only if the timer was armed to start it. -/
def Daemon.TimerMinds (env : Env) (s : Daemon) (e : Event) (a : Addr) : Prop :=
  ∀ v u t, s.vm? a = some v → onTimer env a (s.delivered e) = .ok (u, t) →
    ∃ l, t.log = l ++ (s.delivered e).log ∧ (.poweroff a v.serial ∈ l → ForProcess v.serial e.purpose) ∧
      ∀ n k, .spawn a n k ∈ l → ToStart e.purpose

/-- New entries of the log are new entries of the view they are about. -/
theorem mem_new_view {t' : Daemon} {l' : List Action} {x : Action} (hl : t'.log = l ++ t.log)
    (hl' : (t'.view a).log = l' ++ (t.view a).log) (hx : x ∈ l) (hxa : x.vm? = some a) : x ∈ l' := by
  have hview : (t'.view a).log = l.filter (·.about a) ++ (t.view a).log := by
    show t'.log.filter _ = _
    rw [hl, List.filter_append]
    rfl
  rw [List.append_cancel_right (hl'.symm.trans hview)]
  exact List.mem_filter.mpr ⟨hx, by simp [Action.about, hxa]⟩

/-- The knote of a timer in the list is there. -/
theorem armed_of_timer (hw : WF s) (ha : s.Armed) (he : e ∈ s.eventList) (hcb : e.cb = .onTimer) :
    e.armed = true := by
  have hf : e.filter = .timer := by
    have hwf := hw.events e he
    rw [Event.wf, hcb] at hwf
    exact hwf.1
  have harm := ha e he
  rwa [Event.blank_of_not_fd (by simp [hf]) (by simp [hf])] at harm

/-- **A timer does what it was armed for**, in every run in which the state is never changed under timers left over
    from another purpose. -/
theorem timer_minds (h : Reach (bmd env) anyStep s) (hlog : ∀ x ∈ s.log, x.timely) :
    ∀ e ∈ s.eventList, e.cb = .onTimer → ∀ a, e.data = .vm a → s.TimerMinds env e a := by
  intro e he hcb a hd v u t hv ht
  obtain ⟨hw, ha⟩ := reach_wf h
  have hfit := reach_fit h hlog a
  obtain ⟨v', k, k', hv', htim, ev, g, hfires, -⟩ := onTimer_fires hw he hcb hd (armed_of_timer hw ha he hcb) ht
  obtain rfl : v' = v := Option.some.inj (hv'.symm.trans hv)
  have hmem : e.purpose ∈ (s.view a).timers := by rw [htim]; simp
  have hser : (s.view a).serial = v'.serial := by rw [view_serial, vmOf_of_vm? hv]
  have hstate : ((s.delivered e).view a).state = (s.view a).state := by rw [ev]; rfl
  have hserial : ((s.delivered e).view a).serial = v'.serial := by rw [ev]; exact hser
  obtain ⟨l, hl, -⟩ := g.log
  refine ⟨l, hl, fun hx => ?_, fun n kind hx => ?_⟩
  · -- a power-off of the process
    rcases hfires.log_cases with ⟨-, l', hl', hno⟩ | ⟨st, hst, h1, h2, -⟩ | ⟨-, hl'⟩
    · rw [hserial] at hno
      exact (hno (mem_new_view hl hl' hx rfl)).elim
    · rw [hstate] at hst
      rw [← hser]
      exact hfit.busy st hst h1 h2 _ hmem
    · cases mem_new_view hl (show _ = [] ++ _ from hl') hx rfl
  · -- a start
    rcases hfires.log_cases with ⟨hst, -⟩ | ⟨st, -, -, -, x, hl', hno⟩ | ⟨-, hl'⟩
    · rw [hstate] at hst
      exact hfit.idle (.inr hst) _ hmem
    · rcases List.mem_cons.mp (mem_new_view hl hl' hx rfl) with heq | hx
      · exact (hno n kind heq.symm).elim
      · cases List.mem_singleton.mp hx
    · cases mem_new_view hl (show _ = [] ++ _ from hl') hx rfl

/-- A VM is loaded, its loader timer expires while it runs, and it is shut down: the stop timer is pending. -/
theorem timer_minds_stop : ∃ s e, Reach (bmd .ideal) anyStep s ∧ e ∈ s.eventList ∧ e.purpose = some (.stop 12) ∧
    s.TimerMinds .ideal e 5 := by
  obtain ⟨s, hr, hlog, e, he, hcb, hd, hp⟩ : ∃ s, Reach (bmd .ideal) anyStep s ∧ (∀ x ∈ s.log, x.timely) ∧
      ∃ e ∈ s.eventList, e.cb = .onTimer ∧ e.data = .vm 5 ∧ e.purpose = some (.stop 12) :=
    exists_reach [(VmConf.section "a" "bhyveload" .yes).load]
      ([.procExit 1 0, .event 7 {}, .event 10 {}] ++ clientSends 11 17 1) (by decide +kernel)
  exact ⟨s, e, hr, he, hp, timer_minds hr hlog e he hcb 5 hd⟩

/-- A VM is loaded and shut down before its loader timer expires: that timer powers off the guest. -/
theorem timer_strays : ∃ s e, Reach (bmd .ideal) anyStep s ∧ e ∈ s.eventList ∧ e.cb = .onTimer ∧
    e.data = .vm 5 ∧ ¬s.TimerMinds .ideal e 5 := by
  obtain ⟨s, hr, e, he, hcb, hd, hp, ⟨v, hv, hser⟩, hpower⟩ : ∃ s, Reach (bmd .ideal) anyStep s ∧
      ∃ e ∈ s.eventList, e.cb = .onTimer ∧ e.data = .vm 5 ∧ e.purpose = some (.loader 6) ∧
        (∃ v ∈ s.vm? 5, v.serial = 12) ∧ ∃ t ∈ Prog.exec (onTimer .ideal 5) (s.delivered e),
          t.log = [.suspend 5 .poweroff true, .poweroff 5 12] ++ (s.delivered e).log :=
    exists_reach [(VmConf.section "a" "bhyveload" .yes).load]
      ([.procExit 1 0, .event 7 {}] ++ clientSends 11 17 1) (by decide +kernel)
  obtain ⟨t, ht, hlog⟩ := hpower
  obtain ⟨u, ht⟩ := exec_some ht
  refine ⟨s, e, hr, he, hcb, hd, fun hminds => ?_⟩
  obtain ⟨l, hl, hpo, -⟩ := hminds v u t hv ht
  rw [hser, hp, List.append_cancel_right (hl.symm.trans hlog)] at hpo
  rcases hpo (by simp) with h | h <;> cases h

/-! ## The stop timeout -/

/-- The expiry of the stop timer of a process did not find its VM in `RUN`, where it is ignored. -/
def Action.heeded : Action → Prop
  | .deliver _ cb purpose st serial => ¬(cb = .onTimer ∧ purpose = some (.stop serial) ∧ st = .run)
  | _ => True

instance : DecidablePred Action.heeded
  | .deliver .. => inferInstanceAs (Decidable (¬_))
  | .state .. | .spawn .. | .wait .. | .kill .. | .acpiPoweroff .. | .poweroff .. | .suspend .. | .arm ..
  | .boot .. | .down .. | .reload => isTrue trivial

/-- The action neither asks a guest to shut down nor arms a stop timer. -/
def Action.plain : Action → Prop
  | .acpiPoweroff .. => False
  | .arm _ (.stop _) _ => False
  | _ => True

/-- The process of the VM, once asked to stop within a time, will be powered off or was. -/
structure View.Guarded (a : Addr) (v : View) : Prop where
  asked : ∀ n, .acpiPoweroff a n ∈ v.log → ∃ t, .arm a (.stop n) t ∈ v.log
  bound : ∀ n t, .arm a (.stop n) t ∈ v.log → v.state ≠ none → n ≤ v.serial
  guarded : ∀ t, .arm a (.stop v.serial) t ∈ v.log → 0 < t → v.procs ≠ [] →
    some (.stop v.serial) ∈ v.timers ∨ .poweroff a v.serial ∈ v.log

theorem View.Guarded.of_plain (h : v.Guarded a) (hlog : w.log = l ++ v.log)
    (hl : ∀ x ∈ l, x.plain) (hser : w.serial = v.serial) (hst : w.state ≠ none → v.state ≠ none)
    (hg : w.procs ≠ [] → v.procs ≠ [] ∧
      (some (.stop v.serial) ∈ v.timers → some (.stop v.serial) ∈ w.timers ∨ .poweroff a v.serial ∈ w.log)) :
    w.Guarded a := by
  have hold : ∀ {n t}, .arm a (.stop n) t ∈ w.log → .arm a (.stop n) t ∈ v.log := by
    intro n t hx
    rw [hlog] at hx
    rcases List.mem_append.mp hx with hx | hx
    · exact (hl _ hx).elim
    · exact hx
  have hsub : ∀ {x}, x ∈ v.log → x ∈ w.log := fun hx => by rw [hlog]; exact List.mem_append_right _ hx
  refine ⟨fun n hx => ?_, fun n t hx hne => ?_, fun t hx ht hp => ?_⟩
  · rw [hlog] at hx
    rcases List.mem_append.mp hx with hx | hx
    · exact (hl _ hx).elim
    · obtain ⟨t, ht⟩ := h.asked n hx
      exact ⟨t, hsub ht⟩
  · rw [hser]
    exact h.bound n t (hold hx) (hst hne)
  · rw [hser] at hx ⊢
    rcases h.guarded t (hold hx) ht (hg hp).1 with hmem | hpo
    · exact (hg hp).2 hmem
    · exact .inr (hsub hpo)

/-- Nothing happened to the process or its timers. -/
theorem View.Guarded.of_same (h : v.Guarded a) (hlog : w.log = l ++ v.log)
    (hl : ∀ x ∈ l, x.plain) (hser : w.serial = v.serial) (hst : w.state ≠ none → v.state ≠ none)
    (hp : w.procs ≠ [] → v.procs ≠ []) (ht : ∀ p ∈ v.timers, p ∈ w.timers) : w.Guarded a :=
  h.of_plain hlog hl hser hst fun h' => ⟨hp h', fun hm => .inl (ht _ hm)⟩

/-- A VM without a process. -/
theorem View.Guarded.of_vacant (h : v.Guarded a) (hlog : w.log = l ++ v.log)
    (hl : ∀ x ∈ l, x.plain) (hser : w.serial = v.serial) (hst : w.state ≠ none → v.state ≠ none)
    (hp : w.procs = []) : w.Guarded a :=
  h.of_plain hlog hl hser hst fun h' => (h' hp).elim

/-- A new process has not been asked to stop. -/
theorem Starts.guarded (hr : env.Reliable) (h : Starts env a v w) (hv : v.Guarded a) (hvac : v.procs = [])
    (hsome : v.state ≠ none) : w.Guarded a := by
  cases h with
  | refused => exact hv
  | failed => exact hv.of_vacant (l := [_]) rfl (by simp [Action.plain]) rfl (fun _ => hsome) hvac
  | @started _ p st hp _ hw =>
    -- the stop timers that were armed belong to earlier processes
    have hnew : ∀ {z : View} {l : List Action}, z.log = l ++ v.log → (∀ x ∈ l, x.plain) → z.serial = p.serial →
        z.Guarded a := by
      intro z l hlog hl hser
      have hold : ∀ {n t}, .arm a (.stop n) t ∈ z.log → n ≤ v.serial := by
        intro n t hx
        rw [hlog] at hx
        rcases List.mem_append.mp hx with hx | hx
        · exact (hl _ hx).elim
        · exact hv.bound n t hx hsome
      refine ⟨fun n hx => ?_, fun n t hx _ => ?_, fun t hx => ?_⟩
      · rw [hlog] at hx ⊢
        rcases List.mem_append.mp hx with hx | hx
        · exact (hl _ hx).elim
        · obtain ⟨t, ht⟩ := hv.asked n hx
          exact ⟨t, List.mem_append_right _ ht⟩
      · rw [hser]
        exact Nat.le_of_lt (Nat.lt_of_le_of_lt (hold hx) hp.serial)
      · have hle := hold hx
        rw [hser] at hle
        exact absurd hp.serial (Nat.not_lt.mpr hle)
    cases hw with
    | waiting => exact hnew (l := [_, _]) rfl (by simp [Action.plain]) rfl
    | timed _ _ _ => exact hnew (l := [_, _, _]) rfl (by simp [Action.plain]) rfl
    | abandoned h => exact (h hr.toRegisters).elim

theorem View.Guarded.requestStop {t : Int} {ok : Bool} (hv : v.Guarded a) (hok : 0 ≤ t → ok = true) :
    (v.requestStop a t ok).Guarded a := by
  have htimers : 0 < t ∨ some (.stop v.serial) ∈ v.timers →
      some (.stop v.serial) ∈ (v.requestStop a t ok).timers := by
    intro h
    show _ ∈ if ok then some (.stop v.serial) :: v.timers else v.timers
    rcases h with h | h
    · rw [hok (Int.le_of_lt h)]
      exact List.mem_cons_self ..
    · split
      · exact List.mem_cons_of_mem _ h
      · exact h
  have harm : ∀ {n t'}, .arm a (.stop n) t' ∈ (v.requestStop a t ok).log →
      (n = v.serial ∧ t' = t) ∨ .arm a (.stop n) t' ∈ v.log := by
    intro n t' hx
    rcases List.mem_cons.mp hx with hx | hx
    · cases hx
      exact .inl ⟨rfl, rfl⟩
    · refine .inr ?_
      simpa [View.acpiPoweroff, View.note] using hx
  refine ⟨fun n hx => ?_, fun n t' hx hne => ?_, fun t' hx ht hp => ?_⟩
  · by_cases hn : n = v.serial
    · exact ⟨t, hn ▸ List.mem_cons_self ..⟩
    · have hx : .acpiPoweroff a n ∈ v.log := by
        simpa [View.requestStop, View.acpiPoweroff, View.arm, View.note, hn] using hx
      obtain ⟨t', ht'⟩ := hv.asked n hx
      exact ⟨t', List.mem_append_right [_, _, _] ht'⟩
  · rcases harm hx with ⟨rfl, -⟩ | hx
    · exact Nat.le_refl _
    · exact hv.bound n t' hx hne
  · rcases harm hx with ⟨-, rfl⟩ | hx
    · exact .inl (htimers (.inl ht))
    · rcases hv.guarded t' hx ht hp with hm | hpo
      · exact .inl (htimers (.inr hm))
      · exact .inr (List.mem_append_right [_, _, _] hpo)

theorem View.force_plain {opened : Bool} : (v.force a opened).plain := View.force_cases (fun _ => trivial) fun _ => trivial

theorem View.Guarded.poweroff {opened : Bool} (hv : v.Guarded a) : (v.poweroff a opened).Guarded a := by
  have hpo : .poweroff a v.serial ∈ (v.poweroff a opened).log := List.mem_cons_of_mem _ (List.mem_cons_self ..)
  have hl : ∀ x ∈ [v.force a opened, .poweroff a v.serial], x.plain :=
    List.forall_mem_cons.mpr ⟨View.force_plain, by simp [Action.plain]⟩
  exact hv.of_plain (l := [_, _]) rfl hl rfl id fun hp => ⟨hp, fun _ => .inr hpo⟩

theorem Exits.guarded (hr : env.Reliable) (h : Exits env a v w) (hv : v.Guarded a) (hvac : v.procs = []) :
    w.Guarded a := by
  have hsome : ∀ {st}, v.state = some st → v.state ≠ none := fun h => by rw [h]; simp
  cases h with
  | loaded hst h | rebooted hst h => exact h.guarded hr hv hvac (hsome hst)
  | loadFailed hst => exact hv.of_vacant (l := [_]) rfl (by simp [Action.plain]) rfl (fun _ => hsome hst) hvac
  | stopped hst =>
    exact hv.of_vacant (l := [_]) rfl (by simp [Action.plain]) rfl (fun _ => hst.elim hsome hsome) hvac
  | restarting hst =>
    exact hv.of_vacant (l := [_, _, _]) rfl (by simp [Action.plain]) rfl (fun _ => hsome hst) hvac
  | removed =>
    have hs : (v.stop a).Guarded a := hv.of_vacant (l := [_]) rfl (by simp [Action.plain]) rfl
      (fun _ => hsome ‹_›) hvac
    exact ⟨hs.asked, fun n t _ hne => (hne rfl).elim, fun t _ _ hp => (hp hvac).elim⟩
  | stale => exact hv

/-- The expiry of a timer. -/
theorem Fires.guarded {l l' : List (Option Purpose)} (hr : env.Reliable)
    (hm : v.Manned) (hv : v.Guarded a) (hl : v.timers = l ++ p :: l') (hst : v.state = some st)
    (h : Fires env a ({ v with timers := l ++ l' }.note (.deliver a .onTimer p st v.serial)) w)
    (hlog : ∀ x ∈ w.log, x.heeded) : w.Guarded a := by
  cases h with
  | start hterm h =>
    have hvac : v.procs = [] := (hm.vacant (.inr hterm)).1
    have hu := hv.of_vacant (w := { v with timers := l ++ l' }.note (.deliver a .onTimer p st v.serial)) (l := [_])
      rfl (by simp [Action.plain]) rfl id hvac
    exact h.guarded hr hu hvac (by rw [show _ = some State.terminate from hterm]; simp)
  | @poweroff _ opened =>
    -- whichever timer it was, the process is powered off now
    let u : View := { v with timers := l ++ l' }.note (.deliver a .onTimer p st v.serial)
    have hpo : .poweroff a v.serial ∈ (u.poweroff a opened).log := List.mem_cons_of_mem _ (List.mem_cons_self ..)
    have hk : ∀ x ∈ [u.force a opened, .poweroff a v.serial, .deliver a .onTimer p st v.serial], x.plain :=
      List.forall_mem_cons.mpr ⟨View.force_plain, by simp [Action.plain]⟩
    exact hv.of_plain (w := u.poweroff a opened) (l := [_, _, _]) rfl hk rfl id fun hp => ⟨hp, fun _ => .inr hpo⟩
  | ignored hrun =>
    have hst : st = .run := Option.some.inj (hst.symm.trans hrun)
    have hne : p ≠ some (.stop v.serial) := by
      rintro rfl
      subst hst
      exact hlog _ (.head _) ⟨rfl, rfl, rfl⟩
    refine hv.of_plain (l := [_]) rfl (by simp [Action.plain]) rfl id fun hp => ⟨hp, fun hmem => .inl ?_⟩
    rw [hl] at hmem
    rcases List.mem_append.mp hmem with hmem | hmem
    · exact List.mem_append_left _ hmem
    · rcases List.mem_cons.mp hmem with heq | hmem
      · exact (hne heq.symm).elim
      · exact List.mem_append_right _ hmem

theorem Life.guarded (hr : env.Reliable) (hm : v.Manned) (hv : v.Guarded a) (hlog : ∀ x ∈ w.log, x.heeded)
    (h : Life env False a v w) : w.Guarded a := by
  have hsome : ∀ {st}, v.Active st → v.state ≠ none := fun h => by rw [h.1]; simp
  cases h with
  | childExit =>
    exact hv.of_same (l := []) rfl (by simp) rfl id (fun h h' => h (by simp [h'])) fun _ => id
  | stolen _ h => exact h.elim
  | timer hl hst h => exact h.guarded hr hm hv hl hst hlog
  | @exit _ p pid l l' st x hl hst hdead hx rec _ h =>
    obtain ⟨q, hq, hqpid, -, -⟩ := hm.waited hl hst
    have hvac : v.procs.filter (·.pid != v.pid) = [] := by simp [hq, hqpid]
    refine h.guarded hr (hv.of_vacant (l := [_, _]) rfl (by simp [Action.plain]) rfl id hvac) hvac
  | output => exact hv.of_same (l := [_]) rfl (by simp [Action.plain]) rfl id id fun _ => id
  | create hu =>
    have hnone : ∀ x ∈ v.log, x = .reload := hu.log
    exact ⟨fun n hx => (by cases hnone _ hx), fun n t hx => (by cases hnone _ hx), fun t hx => (by cases hnone _ hx)⟩
  | schedule _ hst hp _ =>
    refine hv.of_vacant (l := [_]) rfl ?_ rfl (fun _ => by rw [hst]; simp) (hm.vacant (.inr hst)).1
    rcases hp with rfl | rfl <;> simp [Action.plain]
  | start _ hst h => exact h.guarded hr hv (hm.vacant (.inr hst)).1 (by rw [hst]; simp)
  | stopFor _ hst _ hok =>
    exact (hv.requestStop (hok hr)).of_same (l := [_]) rfl (by simp [Action.plain]) rfl
      (fun _ => hsome hst) id fun _ => id
  | @shutdown st _ _ hst hok =>
    have hn : (v.note (.down a st v.timers)).Guarded a :=
      hv.of_same (l := [_]) rfl (by simp [Action.plain]) rfl id id fun _ => id
    exact (hn.requestStop (hok hr)).of_same (l := [_]) rfl (by simp [Action.plain]) rfl
      (fun _ => hsome hst) id fun _ => id
  | @poweroff st _ hst =>
    have hn : (v.note (.down a st v.timers)).Guarded a :=
      hv.of_same (l := [_]) rfl (by simp [Action.plain]) rfl id id fun _ => id
    exact hn.poweroff.of_same (l := [_]) rfl (by simp [Action.plain]) rfl
      (fun _ => hsome hst) id fun _ => id
  | downIdle | reset | boot | reload =>
    exact hv.of_same (l := [_]) rfl (by simp [Action.plain]) rfl id id fun _ => id
  | terminating _ hok => exact hv.requestStop (hok hr)
  | redirect _ hst _ =>
    exact hv.of_same (l := [_]) rfl (by simp [Action.plain]) rfl (fun _ => by rw [hst]; simp) id fun _ => id
  | drop _ hst =>
    have hvac : v.procs = [] := (hm.vacant (.inr hst)).1
    exact ⟨hv.asked, fun n t _ hne => (hne rfl).elim, fun t _ _ hp => (hp hvac).elim⟩

theorem reach_guarded (hr : env.Reliable) (h : Reach (bmd env) anyStep s) (hlog : ∀ x ∈ s.log, x.heeded) (a : Addr) :
    (s.view a).Guarded a := by
  refine (reach_life False (P := fun a v => v.Manned ∧ ((∀ x ∈ v.log, x.heeded) → v.Guarded a))
    (fun a => ⟨.of_gone rfl ⟨rfl, rfl⟩ ⟨fun _ _ _ _ h => (by cases h), fun _ _ _ _ h => (by cases h)⟩, fun _ => ?_⟩)
    (fun a v w hv hl => ⟨hl.manned hr hv.1, fun hlogw => ?_⟩)
    (fun _ _ hw ha hm _ => not_steals hw ha fun a => (hm a).1) h a).2 fun x hx => hlog x (List.mem_filter.mp hx).1
  · exact ⟨fun n hx => (by cases hx), fun n t hx => (by cases hx), fun t hx => (by cases hx)⟩
  · exact hl.guarded hr hv.1 (hv.2 fun x hx => hlogw x (hl.suffix.subset hx)) hlogw

/-- The process `n` of the VM at `a` is alive. -/
def Daemon.Alive (s : Daemon) (a : Addr) (n : Nat) : Prop :=
  ∃ p ∈ s.procs, p.owner = a ∧ p.serial = n ∧ p.status = none

instance (s : Daemon) (a : Addr) (n : Nat) : Decidable (s.Alive a n) :=
  inferInstanceAs (Decidable (∃ p ∈ s.procs, p.owner = a ∧ p.serial = n ∧ p.status = none))

/-- A process of a VM is its present one. -/
theorem View.Manned.serial_of_proc {p : Proc} (hm : v.Manned) (hp : p ∈ v.procs) :
    p.serial = v.serial ∧ ∃ st, v.state = some st ∧ st ≠ .terminate := by
  by_cases hst : v.state = none ∨ v.state = some .terminate
  · rw [(hm.vacant hst).1] at hp
    cases hp
  · obtain ⟨hnone, hterm⟩ := not_or.mp hst
    obtain ⟨st, hst⟩ := Option.ne_none_iff_exists'.mp hnone
    have hne : st ≠ .terminate := fun heq => hterm (heq ▸ hst)
    obtain ⟨q, hq, ⟨-, hser⟩, -⟩ := hm.occupied st hst hne
    rw [hq] at hp
    rw [List.mem_singleton.mp hp]
    exact ⟨hser, st, hst, hne⟩

/-- A pending timer of a VM is an event in the list. -/
theorem event_of_timer (hw : WF s) (h : p ∈ (s.view a).timers) :
    ∃ e ∈ s.eventList, e.cb = .onTimer ∧ e.data = .vm a ∧ e.purpose = p := by
  obtain ⟨e, he, hp⟩ := List.mem_map.mp h
  obtain ⟨he, ht⟩ := List.mem_filter.mp he
  obtain ⟨hd, hf, -⟩ := Event.isTimerOf_iff.mp ht
  refine ⟨e, he, ?_, hd, hp⟩
  have hwf := hw.events e he
  cases hcb : e.cb with
  | onTimer => rfl
  | plugin =>
    rw [Event.wf, hcb] at hwf
    rw [hd] at hwf
    cases hwf.2
  | _ =>
    rw [Event.wf, hcb] at hwf
    rw [hf] at hwf
    cases hwf.1

/-- The expiry of the stop timer of a living process powers it off, unless the VM is in `RUN`. -/
theorem stop_timer_expires {u : Unit} {e' : VmEntry} (hr : env.Reliable)
    (h : Reach (bmd env) anyStep s) (he : e ∈ s.eventList) (hcb : e.cb = .onTimer) (hd : e.data = .vm a)
    (hv : s.vm? a = some e') (halive : s.Alive a e'.serial) (ht : onTimer env a (s.delivered e) = .ok (u, t)) :
    ∃ l, t.log = l ++ (s.delivered e).log ∧ (.poweroff a e'.serial ∈ l ↔ e'.state ≠ .run) := by
  obtain ⟨hw, ha⟩ := reach_wf h
  obtain ⟨v', k, k', hv', -, ev, g, hfires, -⟩ := onTimer_fires hw he hcb hd (armed_of_timer hw ha he hcb) ht
  obtain rfl : v' = e' := Option.some.inj (hv'.symm.trans hv)
  obtain ⟨p, hp, hpo, -, -⟩ := halive
  obtain ⟨-, st, hst, hne⟩ := (reach_manned hr h a).serial_of_proc
    (List.mem_filter.mpr ⟨hp, by simp [hpo]⟩ : p ∈ (s.view a).procs)
  have hstate : ((s.delivered e).view a).state = some v'.state := by rw [ev]; exact view_state hv
  have hser : ((s.delivered e).view a).serial = v'.serial := by
    rw [ev]
    show (s.view a).serial = _
    rw [view_serial, vmOf_of_vm? hv]
  obtain ⟨l, hl, -⟩ := g.log
  refine ⟨l, hl, ?_⟩
  rcases hfires.log_cases with ⟨hst', -⟩ | ⟨st', hst', -, hrun, x, hl', -⟩ | ⟨hst', hl'⟩
  · -- a VM with a process is not idle
    rw [hstate] at hst'
    rw [view_state hv, hst'] at hst
    exact (hne (Option.some.inj hst).symm).elim
  · rw [hstate] at hst'
    rw [hser] at hl'
    refine ⟨fun _ => by rw [Option.some.inj hst']; exact hrun, fun _ => ?_⟩
    have hview : (t.view a).log = l.filter (·.about a) ++ ((s.delivered e).view a).log := by
      show t.log.filter _ = _
      rw [hl, List.filter_append]
      rfl
    have hmem : .poweroff a v'.serial ∈ l.filter (·.about a) := by
      rw [← List.append_cancel_right (hl'.symm.trans hview)]
      simp
    exact (List.mem_filter.mp hmem).1
  · rw [hstate] at hst'
    refine ⟨fun hx => ?_, fun hrun => (hrun (Option.some.inj hst')).elim⟩
    cases mem_new_view hl (show _ = [] ++ _ from hl') hx rfl

/-- **The stop timeout is kept**, in every run in which the calls of `set_timer` succeed and the expiry of a stop
    timer never finds its VM in `RUN`: while a process that was asked to stop within a positive time is alive, its
    stop timer is pending or it was powered off. Every request to shut down arms a stop timer, and its expiry powers
    off the living process exactly when the VM is not in `RUN`. -/
theorem stop_timeout_kept (hr : env.Reliable) (h : Reach (bmd env) anyStep s) (hlog : ∀ x ∈ s.log, x.heeded) :
    (∀ a n, .acpiPoweroff a n ∈ s.log → ∃ t, .arm a (.stop n) t ∈ s.log) ∧
      (∀ a n t, .arm a (.stop n) t ∈ s.log → 0 < t → s.Alive a n →
        (∃ e ∈ s.eventList, e.cb = .onTimer ∧ e.data = .vm a ∧ e.purpose = some (.stop n)) ∨
          .poweroff a n ∈ s.log) ∧
      ∀ e ∈ s.eventList, e.cb = .onTimer → ∀ a v, e.data = .vm a → s.vm? a = some v →
        e.purpose = some (.stop v.serial) → s.Alive a v.serial → ∀ u t, onTimer env a (s.delivered e) = .ok (u, t) →
          ∃ l, t.log = l ++ (s.delivered e).log ∧ (.poweroff a v.serial ∈ l ↔ v.state ≠ .run) := by
  obtain ⟨hw, -⟩ := reach_wf h
  have hg := reach_guarded hr h hlog
  refine ⟨fun a n hx => ?_, fun a n t hx ht halive => ?_, fun e he hcb a v hd hv _ halive u t ht => ?_⟩
  · obtain ⟨t, ht⟩ := (hg a).asked n (mem_view_log hx rfl)
    exact ⟨t, (List.mem_filter.mp ht).1⟩
  · obtain ⟨p, hp, hpo, hpn, -⟩ := halive
    have hpv : p ∈ (s.view a).procs := List.mem_filter.mpr ⟨hp, by simp [hpo]⟩
    obtain ⟨hser, -⟩ := (reach_manned hr h a).serial_of_proc hpv
    obtain rfl : n = (s.view a).serial := hpn.symm.trans hser
    rcases (hg a).guarded t (mem_view_log hx rfl) ht (List.ne_nil_of_mem hpv) with hm | hpower
    · exact .inl (event_of_timer hw hm)
    · exact .inr (List.mem_filter.mp hpower).1
  · exact stop_timer_expires hr h he hcb hd hv halive ht

/-- A running VM is shut down: the stop timer is pending. -/
theorem stop_timeout_kept_shutdown : ∃ s, Reach (bmd .ideal) anyStep s ∧ s.Alive 5 6 ∧ .arm 5 (.stop 6) 300 ∈ s.log ∧
    .poweroff 5 6 ∉ s.log ∧ ∃ e ∈ s.eventList, e.cb = .onTimer ∧ e.data = .vm 5 ∧ e.purpose = some (.stop 6) := by
  obtain ⟨s, hr, hlog, halive, harm, hno⟩ : ∃ s, Reach (bmd .ideal) anyStep s ∧ (∀ x ∈ s.log, x.heeded) ∧
      s.Alive 5 6 ∧ .arm 5 (.stop 6) 300 ∈ s.log ∧ .poweroff 5 6 ∉ s.log :=
    exists_reach [csmVm] (clientSends 10 12 1) (by decide +kernel)
  obtain ⟨-, hkept, -⟩ := stop_timeout_kept Env.ideal_reliable hr hlog
  rcases hkept 5 6 300 harm (by decide) halive with he | hpower
  · exact ⟨s, hr, halive, harm, hno, he⟩
  · exact (hno hpower).elim

/-- The daemon terminates with a running VM, whose guest does not shut down: the stop timer expires without effect. -/
theorem stop_timeout_lost : ∃ s, Reach (bmd .ideal) anyStep s ∧ s.Alive 5 6 ∧ .arm 5 (.stop 6) 300 ∈ s.log ∧
    .poweroff 5 6 ∉ s.log ∧ ¬∃ e ∈ s.eventList, e.cb = .onTimer ∧ e.data = .vm 5 ∧ e.purpose = some (.stop 6) :=
  exists_reach [csmVm] [.event 2 {}, .stopVirtualMachines, .event 11 {}]
    (by decide +kernel)

end Bmd
