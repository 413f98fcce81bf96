import Bmd.Correctness.WellFormed

/-!
# `Correctness.Aside` — operations that concern no virtual machine

Connections come and go, requests are received and responses sent, signals are counted, plugins register
events. `Aside` says that such an operation changes nothing on the side of the VMs; `Calm` is what follows from
it and from the operations on configurations alike: every view is as it was and the lists stay consistent.
-/

namespace Bmd

open Lib Lib.Prog

/-- No VM notices the change. -/
def Calm (s s' : Daemon) : Prop := WF s → Tidy s s' ∧ ∀ a, s'.view a = s.view a

instance : IsPreorder Daemon Calm where
  refl _ := fun h => ⟨.refl h, fun _ => rfl⟩
  trans _ _ _ h h' := fun hw =>
    ⟨(h hw).1.trans (h' (h hw).1.wf).1, fun a => ((h' (h hw).1.wf).2 a).trans ((h hw).2 a)⟩

/-- The event belongs to a VM. -/
def Event.ofVm (e : Event) : Bool :=
  match e.data with
  | .vm _ => true
  | _ => false

/-- The part of the state that the VMs depend on. -/
def Daemon.vmSide (s : Daemon) : Daemon :=
  { s with
    eventList := (s.eventList.filter (·.ofVm)).map Event.blank
    sockList := [], timerId := 0, sigterm := 0, phase := .loop, cmdSock := 0, fds := [], pipes := [],
    comOwners := [],
    next := 0, tick := 0, faults := [], freedEvents := [], memory := {} }

/-- Nothing changed on the side of the VMs. -/
structure AsideFrom (s s' : Daemon) : Prop where
  vmSide : s'.vmSide = s.vmSide
  next : s.next ≤ s'.next
  wf : (∀ e ∈ s.eventList, e.wf) → ∀ e ∈ s'.eventList, e.wf
  owned : s'.EventsOwned
  events : EventsFrom s s'
  faults : ∃ l, s'.faults = l ++ s.faults ∧ ∀ f ∈ l, ∃ a, f = .dangling a
  pipes : s'.pipes ⊆ s.pipes

/-- The same, given that no two events share an address. -/
def Aside (s s' : Daemon) : Prop := s.EventsOwned → AsideFrom s s'

instance : IsPreorder Daemon Aside where
  refl _ := fun ho => ⟨rfl, Nat.le_refl _, id, ho, .of_subset fun _ => id, ⟨[], rfl, by simp⟩, fun _ => id⟩
  trans _ _ _ h h' := fun ho => by
    have h1 := h ho
    have h2 := h' h1.owned
    obtain ⟨l, hl, hf⟩ := h1.faults
    obtain ⟨l', hl', hf'⟩ := h2.faults
    refine ⟨h2.vmSide.trans h1.vmSide, Nat.le_trans h1.next h2.next, h2.wf ∘ h1.wf, h2.owned,
      h1.events.trans h1.next h2.events,
      ⟨l' ++ l, by rw [hl', hl, List.append_assoc], fun f hmem => ?_⟩, fun _ hx => h1.pipes (h2.pipes hx)⟩
    rcases List.mem_append.mp hmem with hmem | hmem
    · exact hf' f hmem
    · exact hf f hmem

/-! ## Aside operations are calm -/

variable {s s' : Daemon} {a : Addr} {env : Env}

theorem isTimerOf_ofVm {e : Event} (h : e.isTimerOf a = true) : e.ofVm = true := by
  simp [Event.ofVm, (Event.isTimerOf_iff.mp h).1]

theorem isWaitOf_ofVm {e : Event} (h : e.isWaitOf a = true) : e.ofVm = true := by
  simp [Event.ofVm, (Event.isWaitOf_iff.mp h).1]

/-- A selection among the events of VMs sees only these. -/
theorem filter_ofVm {q : Event → Bool} (hq : ∀ e, q e = true → e.ofVm = true)
    (hb : ∀ e : Event, q e.blank = q e) (l : List Event) :
    (l.map Event.blank).filter q = ((l.filter (·.ofVm)).map Event.blank).filter q := by
  rw [List.filter_map, List.filter_map, List.filter_filter]
  congr 1
  refine List.filter_congr fun e _ => ?_
  cases hqe : q e with
  | false => simp [hb, hqe]
  | true => simp [hb, hqe, hq e hqe]

theorem AsideFrom.view (h : AsideFrom s s') (a : Addr) : s'.view a = s.view a := by
  have hev : (s'.eventList.filter (·.ofVm)).map Event.blank = (s.eventList.filter (·.ofVm)).map Event.blank :=
    (congrArg Daemon.eventList h.vmSide :)
  refine view_of_seen (congrArg Daemon.seen h.vmSide :) ?_ ?_
  · rw [timersOf_eq_blank, timersOf_eq_blank,
      filter_ofVm (fun _ => isTimerOf_ofVm) (Event.isTimerOf_blank a) s'.eventList,
      filter_ofVm (fun _ => isTimerOf_ofVm) (Event.isTimerOf_blank a) s.eventList, hev]
  · rw [waits_eq_blank, waits_eq_blank,
      filter_ofVm (fun _ => isWaitOf_ofVm) (Event.isWaitOf_blank a) s'.eventList,
      filter_ofVm (fun _ => isWaitOf_ofVm) (Event.isWaitOf_blank a) s.eventList, hev]

/-- An event of a VM was there before. -/
theorem AsideFrom.mem_of_vm (h : AsideFrom s s') {e : Event} (he : e ∈ s'.eventList) (hvm : e.ofVm = true) :
    ∃ e' ∈ s.eventList, e'.blank = e.blank := by
  have hev : (s'.eventList.filter (·.ofVm)).map Event.blank = (s.eventList.filter (·.ofVm)).map Event.blank :=
    (congrArg Daemon.eventList h.vmSide :)
  have hmem : e.blank ∈ (s.eventList.filter (·.ofVm)).map Event.blank := by
    rw [← hev]
    exact List.mem_map_of_mem (List.mem_filter.mpr ⟨he, hvm⟩)
  obtain ⟨e', he', heq⟩ := List.mem_map.mp hmem
  exact ⟨e', (List.mem_filter.mp he').1, heq⟩

theorem AsideFrom.conf? (h : AsideFrom s s') (c : Addr) : s'.conf? c = s.conf? c := by
  have hc : s'.confs = s.confs := (congrArg Daemon.confs h.vmSide :)
  simp only [Daemon.conf?, hc]

theorem AsideFrom.eventFree (h : AsideFrom s s') (x : Addr) (hx : .eventFree x ∈ s'.faults) :
    .eventFree x ∈ s.faults := by
  obtain ⟨l, hl, hf⟩ := h.faults
  rw [hl] at hx
  rcases List.mem_append.mp hx with hx | hx
  · obtain ⟨a, ha⟩ := hf _ hx
    cases ha
  · exact hx

theorem AsideFrom.keepsWF (h : AsideFrom s s') (hw : WF s) : WF s' := by
  refine hw.of_lists (congrArg Daemon.lists h.vmSide :) h.next (h.wf hw.events) h.owned fun e he b hd => ?_
  obtain ⟨e', he', hbl⟩ := h.mem_of_vm he (by simp [Event.ofVm, hd])
  exact hw.eventVms e' he' b (by rw [Event.data_of_blank hbl, hd])

/-- The events of connections still refer to connections. -/
def SockKept (s s' : Daemon) : Prop := Socks s → Socks s'

instance : IsPreorder Daemon SockKept where
  refl _ := id
  trans _ _ _ h h' := h' ∘ h

theorem Aside.calm (h : Aside s s') (hs : SockKept s s') : Calm s s' := fun hw =>
  ⟨⟨(h hw.owned).keepsWF hw, hs, (h hw.owned).next, (h hw.owned).events, fun c hc => by rwa [(h hw.owned).conf?],
    (h hw.owned).eventFree⟩, (h hw.owned).view⟩

/-- Nothing changed on the side of the VMs, and the events of connections are consistent. -/
def Apart (s s' : Daemon) : Prop := Aside s s' ∧ SockKept s s'

instance : IsPreorder Daemon Apart where
  refl s := ⟨refl_of Aside s, refl_of SockKept s⟩
  trans _ _ _ h h' := ⟨trans_of Aside h.1 h'.1, trans_of SockKept h.2 h'.2⟩

theorem Apart.calm (h : Apart s s') : Calm s s' := h.1.calm h.2

theorem keeps_apart {α : Type} {m : Prog α} (h : Keeps Aside m) (hs : Keeps SockKept m) : Keeps Apart m :=
  fun s x s' hm => ⟨h s x s' hm, hs s x s' hm⟩

/-! ## The elementary operations -/

/-- A change that leaves the event list alone. -/
theorem Aside.of_events (hv : s'.vmSide = s.vmSide) (hnext : s.next ≤ s'.next)
    (hev : s'.eventList = s.eventList) (hfr : s'.freedEvents = s.freedEvents)
    (hf : ∃ l, s'.faults = l ++ s.faults ∧ ∀ f ∈ l, ∃ a, f = .dangling a) (hp : s'.pipes = s.pipes) :
    Aside s s' := fun ho =>
  ⟨hv, hnext, by rw [hev]; exact id,
    ⟨by rw [hev, hfr]; exact ho.nodup,
      fun x hx => Nat.lt_of_lt_of_le (ho.bound x (by rw [hev, hfr] at hx; exact hx)) hnext⟩,
    .of_subset fun e he => hev ▸ he, hf, fun x hx => hp ▸ hx⟩

instance : Counts Aside where
  tick := .of_events rfl (Nat.le_refl _) rfl rfl ⟨[], rfl, by simp⟩ rfl
  next := .of_events rfl (Nat.le_succ _) rfl rfl ⟨[], rfl, by simp⟩ rfl

instance : Changes Aside .fds where
  change h := .of_events (congrArg Daemon.vmSide h :) (Nat.le_of_eq (congrArg Daemon.next h.symm :)) (congrArg Daemon.eventList h :)
    (congrArg Daemon.freedEvents h :) ⟨[], (congrArg Daemon.faults h :), by simp⟩ (congrArg Daemon.pipes h :)

theorem modSock_aside (b : Addr) (f : SockBuf → SockBuf) : Keeps Aside (modSock b f) :=
  .modify fun _ => .of_events rfl (Nat.le_refl _) rfl rfl ⟨[], rfl, by simp⟩ rfl

/-- Closing a descriptor only drops knotes. -/
theorem closeFd_aside (fd : Fd) : Keeps Aside (closeFd fd) := by
  intro s u s' h ho
  have hq := preserved (R := Silent 0) h
  have hbl : s'.eventList.map Event.blank = s.eventList.map Event.blank := (congrArg Daemon.eventList hq.1 :)
  have hs' := of_modify h
  have haddr : s'.eventList.map (·.addr) = s.eventList.map (·.addr) := by
    have := congrArg (List.map Event.addr) hbl
    simpa [List.map_map, Function.comp_def] using this
  have hofVm : ∀ e : Event, e.blank.ofVm = e.ofVm := fun e => by simp [Event.ofVm]
  have hev : (s'.eventList.filter (·.ofVm)).map Event.blank = (s.eventList.filter (·.ofVm)).map Event.blank := by
    have key : ∀ l : List Event, (l.filter (·.ofVm)).map Event.blank = (l.map Event.blank).filter (·.ofVm) := by
      intro l
      simp only [List.filter_map, Function.comp_def, hofVm]
    rw [key, key, hbl]
  have hfr : s'.freedEvents = s.freedEvents := by rw [hs']
  refine ⟨?_, hq.2, fun hwf e he => ?_, ⟨?_, ?_⟩, .of_blank hbl, ⟨[],
    by rw [hs']; rfl, by simp⟩, fun x hx => ?_⟩
  · have h1 : s'.vmSide = { s.vmSide with eventList := (s'.eventList.filter (·.ofVm)).map Event.blank } := by
      rw [hs']; rfl
    rw [h1, hev]; rfl
  · have hmem : e.blank ∈ s.eventList.map Event.blank := by
      rw [← hbl]
      exact List.mem_map_of_mem he
    obtain ⟨e', he', heq⟩ := List.mem_map.mp hmem
    exact Event.wf_of_blank heq (hwf e' he')
  · rw [haddr, hfr]
    exact ho.nodup
  · intro x hx
    rw [haddr, hfr] at hx
    exact Nat.lt_of_lt_of_le (ho.bound x hx) hq.2
  · rw [hs'] at hx
    exact (List.mem_filter.mp hx).1

instance : Closes Aside := ⟨closeFd_aside⟩

/-- Dropping the events of a connection. -/
theorem dropSock_aside (b : Addr) : Keeps Aside (stopWaitingFor (hasData (.sock b))) := by
  intro s u s' h ho
  have hs' := of_modify h
  have hkeep : (s.eventList.filter fun e => !hasData (.sock b) e).filter (·.ofVm) =
      s.eventList.filter (·.ofVm) := by
    rw [List.filter_filter]
    refine List.filter_congr fun e _ => ?_
    cases hd : e.data <;> simp [Event.ofVm, hasData, hd]
  refine ⟨?_, Nat.le_of_eq (by rw [hs']), fun hwf e he => ?_, stopWaitingFor_owned h ho,
    .of_subset fun e he => ?_,
    ⟨[], by rw [hs']; rfl, by simp⟩, fun x hx => by rw [hs'] at hx; exact hx⟩
  · rw [hs']
    simp only [Daemon.vmSide, hkeep]
  · rw [hs'] at he
    exact hwf e (List.mem_filter.mp he).1
  · rw [hs'] at he
    exact (List.mem_filter.mp he).1

/-- Registering events that belong to no VM. -/
theorem Adds.aside {P : Event → Prop} (hP : ∀ e, P e → e.ofVm = false ∧ e.wf ∧ e.armed = true)
    (h : Adds P s s') :
    Aside s s' := by
  intro ho
  obtain ⟨new, hnew, hnd, hmem⟩ := h.events
  have hnil : new.filter (·.ofVm) = [] := List.filter_eq_nil_iff.mpr fun e he hc => by
    simp [(hP e (hmem e he).1).1] at hc
  have hfr : s'.freedEvents = s.freedEvents := (congrArg Daemon.freedEvents h.rest :)
  refine ⟨?_, h.next, fun hwf e he => ?_, ⟨?_, ?_⟩, fun e he => ?_,
    ⟨[], (congrArg Daemon.faults h.rest :), by simp⟩, fun x hx => (congrArg Daemon.pipes h.rest :) ▸ hx⟩
  · have h1 := congrArg Daemon.vmSide h.rest
    have h2 : ∀ t : Daemon, t.vmSide =
        { t.sansEvents.vmSide with eventList := (t.eventList.filter (·.ofVm)).map Event.blank } := fun _ => rfl
    rw [h2 s', h2 s, h1, hnew, List.filter_append, hnil, List.nil_append]
  · rw [hnew] at he
    rcases List.mem_append.mp he with he | he
    · exact (hP e (hmem e he).1).2.1
    · exact hwf e he
  · rw [hnew, hfr, List.map_append, List.append_assoc, List.nodup_append]
    refine ⟨hnd, ho.nodup, fun x hx y hy => ?_⟩
    obtain ⟨e, he, rfl⟩ := List.mem_map.mp hx
    have h1 := (hmem e he).2.1
    have h2 := ho.bound y hy
    omega
  · intro x hx
    rw [hnew, hfr, List.map_append, List.append_assoc] at hx
    rcases List.mem_append.mp hx with hx | hx
    · obtain ⟨e, he, rfl⟩ := List.mem_map.mp hx
      exact (hmem e he).2.2
    · exact Nat.lt_of_lt_of_le (ho.bound x hx) h.next
  · rw [hnew] at he
    rcases List.mem_append.mp he with he | he
    · exact .inr ⟨(hmem e he).2.1, Event.blank_armed (hP e (hmem e he).1).2.2⟩
    · exact .inl ⟨e, he, rfl, rfl, rfl⟩

theorem waitForSockBuf_aside (b : Addr) (fd : Fd) : Keeps Aside (waitForSockBuf env b fd) := by
  intro s r s' h
  refine Adds.aside (P := fun e => e.ofVm = false ∧ e.wf ∧ e.armed = true) (fun _ he => he) ?_
  refine registerEvents_adds (fun x hx addr => ?_) s r s' h
  rcases List.mem_cons.mp hx with rfl | hx
  · exact ⟨rfl, ⟨rfl, by simp [mkEvent], rfl, b, rfl⟩, rfl⟩
  · rw [List.mem_singleton.mp hx]
    exact ⟨rfl, ⟨rfl, by simp [mkEvent], rfl, b, rfl⟩, rfl⟩

/-- The events whose flags `set_sock_buf_wait_flags` changes belong to the connection. -/
theorem waitFlags_cases (found : List Event) (recvF sendF : EvFlags) (e : Event) :
    waitFlags found recvF sendF e = e ∨
      ((∃ e' ∈ found, e'.addr = e.addr) ∧
        ∃ f, (f = recvF ∨ f = sendF) ∧ waitFlags found recvF sendF e = { e with flags := f }) := by
  unfold waitFlags
  have hmem : ∀ q : Event → Bool, (found.reverse.find? q).any (·.addr == e.addr) = true →
      ∃ e' ∈ found, e'.addr = e.addr := by
    intro q hq
    cases hf : found.reverse.find? q with
    | none => rw [hf] at hq; cases hq
    | some e' =>
      rw [hf] at hq
      exact ⟨e', List.mem_reverse.mp (List.mem_of_find?_eq_some hf), by simpa using hq⟩
  split
  · next hc => exact .inr ⟨hmem _ hc, recvF, .inl rfl, rfl⟩
  · split
    · next hc => exact .inr ⟨hmem _ hc, sendF, .inr rfl, rfl⟩
    · exact .inl rfl

section

variable (found : List Event) (recvF sendF : EvFlags) (e : Event)

@[simp] theorem waitFlags_addr : (waitFlags found recvF sendF e).addr = e.addr := by
  rcases waitFlags_cases found recvF sendF e with heq | ⟨-, f, -, heq⟩ <;> rw [heq]

@[simp] theorem waitFlags_data : (waitFlags found recvF sendF e).data = e.data := by
  rcases waitFlags_cases found recvF sendF e with heq | ⟨-, f, -, heq⟩ <;> rw [heq]

end

/-- An event that is changed is an event of the connection, since addresses are unique. -/
theorem waitFlags_own (ho : s.EventsOwned) (b : Addr) (recvF sendF : EvFlags) {e : Event} (he : e ∈ s.eventList) :
    waitFlags (sockBufEvents s b) recvF sendF e = e ∨ (e.data = .sock b ∧
      ∃ f, (f = recvF ∨ f = sendF) ∧ waitFlags (sockBufEvents s b) recvF sendF e = { e with flags := f }) := by
  rcases waitFlags_cases (sockBufEvents s b) recvF sendF e with heq | ⟨⟨e', he', haddr⟩, hf⟩
  · exact .inl heq
  · obtain ⟨hmem, hdata⟩ := List.mem_filter.mp (List.mem_of_mem_take he')
    obtain rfl : e' = e := List.inj_on_of_nodup_map (List.nodup_append.mp ho.nodup).1 hmem he haddr
    exact .inr ⟨eq_of_beq (Bool.and_eq_true_iff.mp hdata).1, hf⟩

theorem setSockBufWaitFlags_aside (b : Addr) {recvF sendF : EvFlags} (hr : recvF ≠ .oneshot)
    (hs : sendF ≠ .oneshot) : Keeps Aside (setSockBufWaitFlags env b recvF sendF) := by
  refine .get_bind fun s r s' h ho => ?_
  split at h
  · cases h
    exact refl_of Aside _ ho
  obtain ⟨ok, s1, h1, h⟩ := of_bind h
  have a1 : Aside s s1 := preserved h1
  cases h1
  split at h
  · cases h
    exact a1 ho
  obtain ⟨_, s2, h2, h⟩ := of_bind h
  cases h
  have hblank : ((s.eventList.map (waitFlags (sockBufEvents s b) recvF sendF)).filter (·.ofVm)).map Event.blank =
      (s.eventList.filter (·.ofVm)).map Event.blank := by
    have hfilter : (·.ofVm) ∘ waitFlags (sockBufEvents s b) recvF sendF = (·.ofVm) := by
      funext e
      simp [Event.ofVm]
    rw [List.filter_map, List.map_map, hfilter]
    refine List.map_congr_left fun e he => ?_
    obtain ⟨hmem, hvm⟩ := List.mem_filter.mp he
    rcases waitFlags_own ho b recvF sendF hmem with heq | ⟨hd, -⟩
    · simp [heq]
    · simp [Event.ofVm, hd] at hvm
  have haddr : (s.eventList.map (waitFlags (sockBufEvents s b) recvF sendF)).map (·.addr) =
      s.eventList.map (·.addr) := by
    simp
  rw [of_modify h2]
  refine ⟨?_, Nat.le_refl _, fun hwf e he => ?_, ⟨?_, ?_⟩, fun e he => ?_, ⟨[], rfl, by simp⟩,
    fun _ => id⟩
  · simp only [Daemon.vmSide, hblank]
  · obtain ⟨e', he', rfl⟩ := List.mem_map.mp he
    have hw := hwf e' he'
    rcases waitFlags_own ho b recvF sendF he' with heq | ⟨hd, f, hf, heq⟩
    · rwa [heq]
    · have hf : f ≠ .oneshot := by rcases hf with rfl | rfl <;> assumption
      rw [heq]
      cases hcb : e'.cb <;> simp [Event.wf, hcb, hd] at hw ⊢
      all_goals exact ⟨hw.1, hf, hw.2.2⟩
  · show ((s.eventList.map _).map Event.addr ++ s.freedEvents).Nodup
    rw [haddr]
    exact ho.nodup
  · intro x hx
    refine ho.bound x ?_
    rw [← haddr]
    exact hx
  · obtain ⟨e', he', rfl⟩ := List.mem_map.mp he
    refine .inl ⟨e', he', by simp, by simp, ?_⟩
    rcases waitFlags_own ho b recvF sendF he' with heq | ⟨-, f, -, heq⟩ <;> simp [heq, Event.blank, apply_ite]

/-! ## Connections -/

theorem destroySockBuf_aside (sb : SockBuf) : Keeps Aside (destroySockBuf sb) :=
  .bind (.modify fun _ => .of_events rfl (Nat.le_refl _) rfl rfl ⟨[], rfl, by simp⟩ rfl) fun _ =>
    keeps

theorem closeTimedOut_aside (timeout now : Int) (l : List SockBuf) : Keeps Aside (closeTimedOut timeout now l) := by
  induction l with
  | nil => exact .pure _
  | cons sb rest ih => exact .bind (whenever_keeps _ (destroySockBuf_aside sb)) fun _ => ih

theorem closeTimeoutSockBuf_aside (timeout now : Int) : Keeps Aside (closeTimeoutSockBuf timeout now) :=
  .bind .get fun _ => closeTimedOut_aside _ _ _

theorem dropConnection_aside (sb : SockBuf) : Keeps Aside (dropConnection sb) :=
  .bind (dropSock_aside _) fun _ => destroySockBuf_aside sb

theorem createSockBuf_aside (fd : Fd) (now : Int) (peer : Option Xucred) :
    Keeps Aside (createSockBuf env fd now peer) :=
  .bind keeps fun _ => .ite (fun _ => .pure _) fun _ => .bind keeps fun _ =>
    .bind (.modify fun _ => .of_events rfl (Nat.le_refl _) rfl rfl ⟨[], rfl, by simp⟩ rfl) fun _ => .pure _

theorem acceptConnection_aside (now : Int) (peer : Option Xucred) : Keeps Aside (acceptConnection env now peer) := by
  refine .bind keeps fun fd => .bind (createSockBuf_aside _ _ _) fun sb => ?_
  cases sb with
  | none => exact keeps
  | some sb =>
    exact .bind (waitForSockBuf_aside _ _) fun _ => .ite (fun _ => destroySockBuf_aside _) fun _ => .pure _

theorem onAcceptCmdSock_aside (io : Io) : Keeps Aside (onAcceptCmdSock env io) := by
  unfold onAcceptCmdSock
  split
  · exact .pure _
  · exact acceptConnection_aside _ _

end Bmd
