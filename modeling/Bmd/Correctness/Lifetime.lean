import Bmd.Correctness.Records

/-!
# `Correctness.Lifetime` — who frees an event, and what its `data` points to

An event is freed by `stop_waiting_for` or, when it is one-shot, by the dispatcher after its callback. The two
never meet, with one exception: the exit of a VM in `REMOVE`, whose callback frees the entry of the VM together
with *all* its events, the one being dispatched included.

The objects that events point to are dropped after their events, again with one exception:
`close_timeout_sock_buf` destroys a connection and leaves its two events in `event_list`.
-/

namespace Bmd

open Lib Lib.Prog

variable {env : Env} {s s' t : Daemon} {i : Input} {e : Event} {io : Io} {u : Unit}

/-! ## The event that is dispatched -/

/-- The VM that an event belongs to. -/
def Data.vm? : Data → Option Addr
  | .vm a => some a
  | _ => none

theorem removing_iff : s.removing e ↔
    e.cb = .onVmExit ∧ (e.data.vm?.bind fun b => (s.view b).state) = some .remove := by
  unfold Daemon.removing View.Leaving
  cases hd : e.data <;> simp [Data.vm?]

instance (s : Daemon) (e : Event) : Decidable (s.removing e) := decidable_of_iff _ removing_iff.symm

/-- The exit callback of a VM in `REMOVE` frees the event it was called for. -/
theorem callback_removing (hw : WF s) (he : e ∈ s.eventList) (hdel : s.deliverable e = true)
    (hrem : s.removing e) (h : callback env e io (s.delivered e) = .ok (u, t)) : ¬t.holds e.addr := by
  have hh := callback_handles hw he hdel h
  obtain ⟨hcb, b, hd, hleave⟩ := hrem
  -- the entry is gone
  have hgone : t.vm? b = none := by
    obtain ⟨v, hv⟩ := Option.isSome_iff_exists.mp (hw.eventVms e he b hd)
    have hst : v.state = .remove := Option.some.inj ((view_state hv).symm.trans hleave)
    simp only [callback, hcb, hd] at h
    replace h := get_bind h
    have hv' : (s.delivered e).vm? b = some v := hv
    simp only [hv'] at h
    obtain ⟨status, h, -⟩ := onVmExitVm_waited h
    rw [onVmExitStatus_remove hst, addr_of_vm? hv] at h
    have tw := waited_tidy e.ident status (delivered_wf (e := e) hw) (mem_of_vm? hv')
    obtain ⟨-, hview, -⟩ := onVmRemoved_spec tw.wf (show (s.vm? b).isSome by rw [hv]; rfl) h
    have hnone : (t.vm? b).map (·.state) = none := (congrArg View.state hview :)
    exact Option.map_eq_none_iff.mp hnone
  -- and no event that points to it is left
  rintro ⟨x, hx, hxe⟩
  rcases hh.tidy.events x hx with ⟨e1, he1, ha1, hd1, -⟩ | ⟨hlo, -⟩
  · obtain ⟨y, hy, hy'⟩ := mem_delivered he1
    have hye : y.addr = e.addr ∧ y.data = x.data := by
      rcases hy' with ⟨rfl, -⟩ | ⟨rfl, -, -⟩
      · exact ⟨ha1.trans hxe, hd1⟩
      · exact ⟨ha1.trans hxe, hd1⟩
    have hyeq : y = e := (hw.event_unique he hy hye.1)
    have hsome := hh.tidy.wf.eventVms x hx b (by rw [← hye.2, hyeq, hd])
    rw [hgone] at hsome
    cases hsome
  · have hlt := hw.owned.bound e.addr (List.mem_append_left _ (List.mem_map_of_mem he))
    exact absurd hlt (Nat.not_lt.mpr (hxe ▸ hlo))

/-- **The dispatcher finds its event**, unless it is the exit of a VM in `REMOVE`. -/
theorem callback_holds_iff (hw : WF s) (he : e ∈ s.eventList) (hdel : s.deliverable e = true)
    (ho : e.oneshot = true) (h : callback env e io (s.delivered e) = .ok (u, t)) :
    t.holds e.addr ↔ ¬s.removing e := by
  constructor
  · intro hholds hrem
    exact callback_removing hw he hdel hrem h hholds
  · intro hnr
    exact (callback_handles hw he hdel h).holds ho hnr

/-- An event that is not one-shot is left alone after its callback. -/
theorem dispatch_of_not_oneshot (ho : e.oneshot = false) (h : callback env e io (s.delivered e) = .ok (u, t)) :
    dispatch env e io s = .ok (u, t) :=
  bind_ok.mpr ⟨(), s.delivered e, rfl, bind_ok.mpr ⟨u, t, h, by simp only [whenever, ho]; rfl⟩⟩

/-! ## Steps -/

/-- The step does not deliver the exit of a VM in `REMOVE`. -/
def Daemon.sparesRemoved (s : Daemon) (i : Input) : Prop := ∀ e ∈ s.arrival i, ¬s.removing e

instance (s : Daemon) (i : Input) : Decidable (s.sparesRemoved i) :=
  inferInstanceAs (Decidable (∀ e ∈ s.arrival i, ¬s.removing e))

/-- The time at which a wait of the event loop ended without an event. -/
def Input.expiry : Input → Option Int
  | .timeout _ now => some now
  | _ => none

/-- The step does not close a connection because it was idle. -/
def Daemon.keepsIdle (s : Daemon) (i : Input) : Prop :=
  ∀ now ∈ i.expiry, ∀ sb ∈ s.sockList, sb.timedOut commandTimeoutSec now = false

instance (s : Daemon) (i : Input) : Decidable (s.keepsIdle i) :=
  inferInstanceAs (Decidable (∀ now ∈ i.expiry, ∀ sb ∈ s.sockList, sb.timedOut commandTimeoutSec now = false))

theorem closeTimedOut_none {now : Int} {l : List SockBuf} (hl : ∀ sb ∈ l, sb.timedOut commandTimeoutSec now = false)
    (h : closeTimedOut commandTimeoutSec now l s = .ok (u, s')) : s' = s := by
  induction l with
  | nil => cases h; rfl
  | cons sb rest ih =>
    obtain ⟨_, s1, h1, h⟩ := of_bind h
    rw [whenever, hl sb (List.mem_cons_self ..)] at h1
    cases h1
    exact ih (fun x hx => hl x (List.mem_cons_of_mem _ hx)) h

/-- What a step keeps alive. -/
theorem step_lifetime (hw : WF s) (h : step env s i = some s') :
    (s.keepsIdle i → SockKept s s') ∧
      (s.sparesRemoved i → ∀ x, .eventFree x ∈ s'.faults → .eventFree x ∈ s.faults) := by
  have of_tidy : Tidy s s' → SockKept s s' ∧ ∀ x, .eventFree x ∈ s'.faults → .eventFree x ∈ s.faults :=
    fun t => ⟨t.socks, t.faults⟩
  cases step_taken h with
  | procExit => exact ⟨fun _ => exitProc_sock, fun _ x hx => hx⟩
  | @event x io e u _ hx hwait hdel h =>
    have kp := setPhase_confSide s (countDown e s.phase)
    obtain ⟨-, hsock, hfree⟩ := dispatch_stepped (kp.wf hw) (mem_of_event? hx) hdel h
    refine ⟨fun _ hs => hsock ((kp.calm hw).1.socks hs), fun hspare y hy => hfree ?_ y hy⟩
    exact hspare e hx
  | @timeout start now u _ h =>
    refine ⟨fun hidle => ?_, fun _ => (closeTimeoutSockBuf_aside _ _ _ _ _ h hw.owned).eventFree⟩
    replace h := get_bind h
    rw [closeTimedOut_none (hidle now rfl) h]
    exact id
  | keventError =>
    have := of_tidy ((setPhase_confSide s _).calm hw).1
    exact ⟨fun _ => this.1, fun _ => this.2⟩
  | pluginEvent h =>
    have := of_tidy ((registerPluginEvent_apart _ _ _ _ h).calm hw).1
    exact ⟨fun _ => this.1, fun _ => this.2⟩
  | stopVirtualMachines h =>
    have := of_tidy (beginStop_moves _ _ _ h hw).1
    exact ⟨fun _ => this.1, fun _ => this.2⟩

/-! ## Events in memory -/

/-- **Dispatching keeps the records in step**, unless the event is the exit of a VM in `REMOVE`. -/
theorem dispatch_mirrored (hw : WF s) (he : e ∈ s.eventList) (hdel : s.deliverable e = true) (hnr : ¬s.removing e)
    (h : dispatch env e io s = .ok (u, s')) (hs : s.Mirrored) : s'.Mirrored := by
  obtain ⟨_, s1, h1, h⟩ := of_bind h
  obtain ⟨_, t, ht, h⟩ := of_bind h
  have hs1 : s1 = s.delivered e := of_modify h1
  rw [hs1] at ht
  have hdeliver : (s.delivered e).Mirrored := hs.map (fun x => by split <;> rfl) rfl rfl
  have hcall : t.Mirrored := preserved (R := Carries Daemon.Mirrored) ht hdeliver
  by_cases ho : e.oneshot = true
  · rw [whenever, if_pos ho] at h
    exact hcall.release ((callback_holds_iff hw he hdel ho ht).mpr hnr) h
  · rw [whenever, if_neg ho] at h
    cases h
    exact hcall

theorem step_mirrored (hw : WF s) (hok : s.sparesRemoved i) (h : step env s i = some s') (hs : s.Mirrored) :
    s'.Mirrored := by
  cases step_taken h with
  | procExit | keventError => exact hs.congr rfl rfl
  | @event x io e u _ hx hwait hdel h =>
    have kp := setPhase_confSide s (countDown e s.phase)
    exact dispatch_mirrored (kp.wf hw) (mem_of_event? hx) hdel (hok e hx) h (hs.congr rfl rfl)
  | timeout h =>
    replace h := get_bind h
    exact preserved (R := Carries Daemon.Mirrored) h hs
  | pluginEvent h | stopVirtualMachines h => exact preserved (R := Carries Daemon.Mirrored) h hs

/-- **What a walk meets is the list**, in every run that never delivers the exit of a VM in `REMOVE`. -/
theorem reach_mirrored {ok : Daemon → Input → Prop} (hok : ∀ s i, ok s i → s.sparesRemoved i)
    (h : Reach (bmd env) ok s) : s.Mirrored := by
  refine Reach.invariant (I := Daemon.Mirrored) ?_ ?_ h
  · rintro s ⟨load, off, h⟩
    exact boot_mirrored h
  · intro s i s' hr hI hs hstep
    exact step_mirrored (reach_wf hr).1 (hok s i hs) hstep hI

/-! ## Events are freed once -/

variable {ok : Daemon → Input → Prop}

theorem reach_faults (hok : ∀ s i, ok s i → s.sparesRemoved i) (h : Reach (bmd env) ok s) :
    ∀ x, .eventFree x ∉ s.faults := by
  refine Reach.invariant (I := fun s => ∀ x, .eventFree x ∉ s.faults) ?_ ?_ h
  · rintro s ⟨load, off, h⟩
    exact (boot_spec h).2.2.2.1
  · intro s i s' hr hI hs hstep x hx
    exact hI x ((step_lifetime (reach_wf hr).1 hstep).2 (hok s i hs) x hx)

/-- **Each event is released once** in every run that never delivers the exit of a VM in `REMOVE`: nothing is
    freed that is not in `event_list`, and no address is freed twice. After its callback, a one-shot event is
    still in the list exactly when it is not such an exit, and an event that is not one-shot is left alone. -/
theorem event_released_once (h : Reach (bmd env) Daemon.sparesRemoved s) :
    (∀ x, .eventFree x ∉ s.faults) ∧ (s.eventList.map (·.addr) ++ s.freedEvents).Nodup ∧
      ∀ e ∈ s.eventList, s.deliverable e = true → ∀ io u t, callback env e io (s.delivered e) = .ok (u, t) →
        (e.oneshot = true → (t.holds e.addr ↔ ¬s.removing e)) ∧
        (e.oneshot = false → dispatch env e io s = .ok (u, t)) := by
  obtain ⟨hw, -⟩ := reach_wf h
  refine ⟨reach_faults (fun _ _ h => h) h, hw.owned.nodup, fun e he hdel io u t ht => ⟨fun ho => ?_, fun ho => ?_⟩⟩
  · exact callback_holds_iff hw he hdel ho ht
  · exact dispatch_of_not_oneshot ho ht

/-- The exit of a guest that reboots is dispatched and its event released. -/
theorem event_released_once_reboot : ∃ s, Reach (bmd .ideal) Daemon.sparesRemoved s ∧ 7 ∈ s.freedEvents ∧
    (∀ x, .eventFree x ∉ s.faults) ∧ (s.eventList.map (·.addr) ++ s.freedEvents).Nodup := by
  obtain ⟨s, hr, h7⟩ : ∃ s, Reach (bmd .ideal) Daemon.sparesRemoved s ∧ 7 ∈ s.freedEvents :=
    exists_reach [csmVm] [.procExit 1 0, .event 7 {}] (by decide +kernel)
  obtain ⟨hfaults, hnodup, -⟩ := event_released_once hr
  exact ⟨s, hr, h7, hfaults, hnodup⟩

/-- A VM is dropped from the configuration and its process exits: the event of the exit, already freed with the
    entry of the VM, is removed and freed again by the dispatcher. -/
theorem event_released_twice :
    ∃ s, Reach (bmd .ideal) anyStep s ∧ .eventFree 7 ∈ s.faults ∧ 7 ∈ s.freedEvents :=
  exists_reach [csmVm]
    [.event 4 { load := some [] }, .procExit 1 0, .event 7 {}] (by decide +kernel)

/-! ## Events point to live objects -/

/-- Every event of a connection that is linked in `event_list` points to a connection in `sock_list`, every event of a
    VM to an entry of `vm_list`. -/
def Daemon.PointsToLive (s : Daemon) : Prop :=
  ∀ e ∈ s.memory.linked,
    (e.cb = .onRecvSockBuf ∨ e.cb = .onSendSockBuf → ∃ b ∈ s.sockList, e.data = .sock b.addr) ∧
    (e.cb = .onTimer ∨ e.cb = .onVmExit ∨ e.cb = .onReadVmOutput → ∃ v ∈ s.vmList, e.data = .vm v.addr)

/-- The events of VMs point to entries of `vm_list` in every run. -/
theorem WF.vm_of_event (hw : WF s) (he : e ∈ s.eventList)
    (hcb : e.cb = .onTimer ∨ e.cb = .onVmExit ∨ e.cb = .onReadVmOutput) : ∃ v ∈ s.vmList, e.data = .vm v.addr := by
  obtain ⟨a, hd⟩ : ∃ a, e.data = .vm a := by
    have hwf := hw.events e he
    rcases hcb with hcb | hcb | hcb <;> rw [Event.wf, hcb] at hwf <;> exact hwf.2.2.2
  obtain ⟨v, hv⟩ := Option.isSome_iff_exists.mp (hw.eventVms e he a hd)
  exact ⟨v, mem_of_vm? hv, by rw [addr_of_vm? hv, hd]⟩

theorem Socks.sock_of_event (hs : Socks s) (hw : WF s) (he : e ∈ s.eventList)
    (hcb : e.cb = .onRecvSockBuf ∨ e.cb = .onSendSockBuf) : ∃ b ∈ s.sockList, e.data = .sock b.addr := by
  obtain ⟨a, hd⟩ : ∃ a, e.data = .sock a := by
    have hwf := hw.events e he
    rcases hcb with hcb | hcb <;> rw [Event.wf, hcb] at hwf <;> exact hwf.2.2.2
  obtain ⟨b, hb⟩ := Option.isSome_iff_exists.mp (hs.live e he a hd)
  have hba : b.addr = a := Keyed.key_of_find? (k := SockBuf.addr) hb
  exact ⟨b, List.mem_of_find?_eq_some hb, by rw [hba, hd]⟩

/-- No connection is closed for being idle, and no exit of a VM in `REMOVE` is delivered. -/
def Daemon.careful (s : Daemon) (i : Input) : Prop := s.keepsIdle i ∧ s.sparesRemoved i

instance (s : Daemon) (i : Input) : Decidable (s.careful i) :=
  inferInstanceAs (Decidable (s.keepsIdle i ∧ s.sparesRemoved i))

/-- **Events point to live objects** in every run in which no connection is closed for being idle and no exit of a VM
    in `REMOVE` is delivered. -/
theorem events_point_to_live (h : Reach (bmd env) Daemon.careful s) : s.PointsToLive := by
  obtain ⟨hw, -⟩ := reach_wf h
  have hs : Socks s := by
    refine Reach.invariant (I := Socks) ?_ ?_ h
    · rintro s ⟨load, off, h⟩
      exact (boot_spec h).2.2.1
    · intro s i s' hr hI hok hstep
      exact (step_lifetime (reach_wf hr).1 hstep).1 hok.1 hI
  intro r hr
  -- the record of an event
  have hkey : r.key ∈ s.eventList.map Event.key := by
    rw [← (reach_mirrored (fun _ _ h => h.2) h).linked]
    exact List.mem_map_of_mem hr
  obtain ⟨e, he, hek⟩ := List.mem_map.mp hkey
  obtain ⟨-, -, -, hdata, hcb⟩ : e.addr = r.addr ∧ e.ident = r.ident ∧ e.filter = r.filter ∧ e.data = r.data ∧
      e.cb = r.cb := by simpa [Event.key] using hek
  rw [← hdata, ← hcb]
  exact ⟨hs.sock_of_event hw he, hw.vm_of_event he⟩

/-- A client connects, and later closes the connection. -/
theorem events_point_to_live_closed : ∃ s, Reach (bmd .ideal) Daemon.careful s ∧ s.sockList = [] ∧ 12 ∈ s.freedEvents ∧
    s.PointsToLive := by
  obtain ⟨s, hr, hnil, hfreed⟩ :
      ∃ s, Reach (bmd .ideal) Daemon.careful s ∧ s.sockList.isEmpty = true ∧ 12 ∈ s.freedEvents :=
    exists_reach [csmVm]
      [.event 10 { accept := some none }, .event 12 { recv := .data [] }] (by decide +kernel)
  exact ⟨s, hr, List.isEmpty_iff.mp hnil, hfreed, events_point_to_live hr⟩

/-- A client connects and sends nothing for thirty seconds: its events stay. -/
theorem events_point_to_dead : ∃ s, Reach (bmd .ideal) anyStep s ∧ ¬s.PointsToLive := by
  obtain ⟨s, hr, hnil, e, he, hcb⟩ : ∃ s, Reach (bmd .ideal) anyStep s ∧ s.sockList.isEmpty = true ∧
      ∃ e ∈ s.memory.linked, e.cb = .onRecvSockBuf :=
    exists_reach [csmVm]
      [.event 10 { accept := some none }, .timeout 0 30] (by decide +kernel)
  refine ⟨s, hr, fun hlive => ?_⟩
  obtain ⟨b, hb, -⟩ := (hlive e he).1 (.inl hcb)
  rw [List.isEmpty_iff.mp hnil] at hb
  cases hb

end Bmd
