import Bmd.Correctness.Aside

/-!
# `Correctness.Connections` — connections and their events

The events of a connection refer to a `sock_buf` in `sock_list`: `wait_for_sock_buf` registers them for a buffer
that has just been put there, and `dropConnection` drops them before the buffer is destroyed. Only
`close_timeout_sock_buf` destroys a buffer without its events. With it apart, what the daemon does for
connections is calm.
-/

namespace Bmd

open Lib Lib.Prog

variable {s s' : Daemon} {env : Env} {f : SockBuf → SockBuf} {b : Addr}

/-- No event of another connection appears and the connections are the same. -/
theorem SockKept.of_data (hev : ∀ e ∈ s'.eventList, ∀ a, e.data = .sock a →
      ∃ e' ∈ s.eventList, e'.data = e.data)
    (hsock : ∀ a, (s'.sock? a).isSome = (s.sock? a).isSome) (hnext : s.next ≤ s'.next) : SockKept s s' := by
  refine fun hs => ⟨fun e he a hd => ?_, fun a ha => ?_⟩
  · obtain ⟨e', he', hd'⟩ := hev e he a hd
    rw [hsock]
    exact hs.live e' he' a (hd'.trans hd)
  · rw [hsock] at ha
    exact Nat.lt_of_lt_of_le (hs.bound a ha) hnext

theorem SockKept.of_eq (hev : s'.eventList = s.eventList) (hsock : s'.sockList = s.sockList)
    (hnext : s.next ≤ s'.next) : SockKept s s' :=
  .of_data (fun e he _ _ => ⟨e, hev ▸ he, rfl⟩) (fun a => by simp only [Daemon.sock?, hsock]) hnext

instance : Counts SockKept where
  tick := .of_eq rfl rfl (Nat.le_refl _)
  next := .of_eq rfl rfl (Nat.le_succ _)

instance : Changes SockKept .fds where
  change h := .of_eq (congrArg Daemon.eventList h :) (congrArg Daemon.sockList h :) (Nat.le_of_eq (congrArg Daemon.next h.symm :))

theorem closeFd_sock (fd : Fd) : Keeps SockKept (closeFd fd) := by
  refine .modify fun s => .of_data (fun e he _ _ => ?_) (fun _ => rfl) (Nat.le_refl _)
  obtain ⟨e', he', rfl⟩ := List.mem_map.mp he
  exact ⟨e', he', by split <;> rfl⟩

instance : Closes SockKept := ⟨closeFd_sock⟩

instance : Counts Apart := ⟨⟨Counts.tick, Counts.tick⟩, ⟨Counts.next, Counts.next⟩⟩

instance : Changes Apart .fds := ⟨fun h => ⟨Changes.change h, Changes.change h⟩⟩

instance : Closes Apart := ⟨fun fd => keeps_apart (closeFd_aside fd) (closeFd_sock fd)⟩

/-- A change that leaves events and connections alone. -/
theorem Apart.of_eq (hv : s'.vmSide = s.vmSide) (hnext : s.next ≤ s'.next) (hev : s'.eventList = s.eventList)
    (hfr : s'.freedEvents = s.freedEvents) (hf : ∃ l, s'.faults = l ++ s.faults ∧ ∀ f ∈ l, ∃ a, f = .dangling a)
    (hp : s'.pipes = s.pipes) (hsock : s'.sockList = s.sockList) : Apart s s' :=
  ⟨.of_events hv hnext hev hfr hf hp, .of_eq hev hsock hnext⟩

theorem sock?_modSock (hf : ∀ x, (f x).addr = x.addr) (a : Addr) :
    ((s.modSock b f).sock? a).isSome = (s.sock? a).isSome := by
  have key := Keyed.find?_map (k := SockBuf.addr) (f := fun x : SockBuf => if x.addr == b then f x else x)
    (fun x => by by_cases hx : x.addr = b <;> simp [hx, hf]) s.sockList a
  show ((s.sockList.map _).find? _).isSome = _
  rw [key, Option.isSome_map]
  rfl

theorem modSock_sock (hf : ∀ x, (f x).addr = x.addr) : Keeps SockKept (modSock b f) :=
  .modify fun _ => .of_data (fun e he _ _ => ⟨e, he, rfl⟩) (fun a => sock?_modSock hf a) (Nat.le_refl _)

theorem Adds.sock {P : Event → Prop} (hP : ∀ e, P e → ∀ a, e.data = .sock a → (s'.sock? a).isSome)
    (h : Adds P s s') : SockKept s s' := by
  obtain ⟨new, hnew, -, hmem⟩ := h.events
  have hsock : ∀ a, s'.sock? a = s.sock? a := fun a => by
    have hl : s'.sockList = s.sockList := (congrArg Daemon.sockList h.rest :)
    simp only [Daemon.sock?, hl]
  refine fun hs => ⟨fun e he a hd => ?_, fun a ha => ?_⟩
  · rw [hnew] at he
    rcases List.mem_append.mp he with he | he
    · exact hP e (hmem e he).1 a hd
    · rw [hsock]
      exact hs.live e he a hd
  · rw [hsock] at ha
    exact Nat.lt_of_lt_of_le (hs.bound a ha) h.next

/-- The registration of an event that belongs to nothing. -/
theorem registerEvent0_apart {type : EventType} {k : Kev} {cb : Callback} {purpose : Option Purpose}
    (h : ∀ addr, (mkEvent addr type k cb .null purpose).wf) :
    Keeps Apart (registerEvent0 env type k cb .null purpose) := fun s r s' hrun =>
  ⟨Adds.aside (fun _ he => he) (registerEvent0_adds (fun addr => ⟨rfl, h addr, rfl⟩) s r s' hrun),
    Adds.sock (P := fun e => e.data = .null) (fun e he a hd => by rw [he] at hd; cases hd)
      (registerEvent0_adds (fun _ => rfl) s r s' hrun)⟩

theorem setSockBufWaitFlags_sock (b : Addr) (recvF sendF : EvFlags) :
    Keeps SockKept (setSockBufWaitFlags env b recvF sendF) := by
  refine .bind .get fun t => .ite (fun _ => .pure _) fun _ => .bind keeps fun _ =>
    .ite (fun _ => .pure _) fun _ => .bind (.modify fun s => ?_) fun _ => .pure _
  refine .of_data (fun e he _ _ => ?_) (fun _ => rfl) (Nat.le_refl _)
  obtain ⟨e', he', rfl⟩ := List.mem_map.mp he
  exact ⟨e', he', by simp⟩

/-! ## The ends of a connection -/

theorem sock?_filter {a : Addr} (h : a ≠ b) : (s.sockList.filter (·.addr != b)).find? (·.addr == a) = s.sock? a :=
  Keyed.find?_filter_of_ne (k := SockBuf.addr) s.sockList h

/-- A buffer may be destroyed once no event refers to it. -/
theorem destroySockBuf_sock {sb : SockBuf} {u : Unit} (h : destroySockBuf sb s = .ok (u, s'))
    (hno : ∀ e ∈ s.eventList, e.data ≠ .sock sb.addr) : SockKept s s' := by
  obtain ⟨_, s1, h1, h⟩ := of_bind h
  have k1 : SockKept s s1 := by
    rw [of_modify h1]
    refine fun hs => ⟨fun e he a hd => ?_, fun a ha => ?_⟩
    · have hab : a ≠ sb.addr := fun hab => hno e he (hab ▸ hd)
      show ((s.sockList.filter _).find? _).isSome
      rw [sock?_filter hab]
      exact hs.live e he a hd
    · obtain ⟨b, hb, hba⟩ := List.find?_isSome.mp ha
      exact hs.bound a (List.find?_isSome.mpr ⟨b, (List.mem_filter.mp hb).1, hba⟩)
  exact trans_of SockKept k1 (preserved h)

theorem dropConnection_sock (sb : SockBuf) : Keeps SockKept (dropConnection sb) := by
  intro s u s' h
  obtain ⟨_, s1, h1, h⟩ := of_bind h
  have hs1 := of_modify h1
  refine trans_of SockKept (b := s1) ?_ (destroySockBuf_sock h fun e he hd => ?_)
  · rw [hs1]
    exact .of_data (fun e he _ _ => ⟨e, (List.mem_filter.mp he).1, rfl⟩) (fun _ => rfl) (Nat.le_refl _)
  · rw [hs1] at he
    have := (List.mem_filter.mp he).2
    simp [hasData, hd] at this

theorem createSockBuf_sock {fd : Fd} {now : Int} {peer : Option Xucred} {r : Option Addr}
    (h : createSockBuf env fd now peer s = .ok (r, s')) :
    SockKept s s' ∧ s'.eventList = s.eventList ∧ ∀ a, r = some a → a = s.next ∧ (s'.sock? a).isSome := by
  obtain ⟨ok, s1, h1, h⟩ := of_bind h
  cases h1
  split at h
  · cases h
    exact ⟨.of_eq rfl rfl (Nat.le_refl _), rfl, nofun⟩
  · obtain ⟨b, s2, h2, h⟩ := of_bind h
    cases h2
    obtain ⟨_, s3, h3, h⟩ := of_bind h
    cases h3
    cases h
    refine ⟨fun hs => ⟨fun e he a hd => ?_, fun a ha => ?_⟩, rfl, fun a ha => ?_⟩
    · have hl := hs.live e he a hd
      simp only [Daemon.sock?, List.find?_cons]
      split
      · rfl
      · exact hl
    · obtain ⟨b, hb, hba⟩ := List.find?_isSome.mp ha
      rcases List.mem_cons.mp hb with rfl | hb
      · rw [← eq_of_beq hba]
        exact Nat.lt_succ_self _
      · exact Nat.lt_succ_of_lt (hs.bound a (List.find?_isSome.mpr ⟨b, hb, hba⟩))
    · cases ha
      exact ⟨rfl, by simp [Daemon.sock?, mkSockBuf]⟩

/-- `on_accept_cmd_sock` registers events only for a buffer that it has put in the list. -/
theorem acceptConnection_sock (now : Int) (peer : Option Xucred) : Keeps SockKept (acceptConnection env now peer) := by
  intro s u s' h hs
  obtain ⟨fd, s1, h1, h⟩ := of_bind h
  have hs1 : Socks s1 := preserved (R := SockKept) h1 hs
  obtain ⟨r, s2, h2, h⟩ := of_bind h
  obtain ⟨k2, hev2, hr⟩ := createSockBuf_sock h2
  cases r with
  | none => exact preserved (R := SockKept) h (k2 hs1)
  | some a =>
    obtain ⟨rfl, hsome⟩ := hr a rfl
    obtain ⟨rc, s3, h3, h⟩ := of_bind h
    have hadds : Adds (fun e => e.data = .sock s1.next) s2 s3 := by
      refine registerEvents_adds (fun x hx addr => ?_) _ _ _ h3
      rcases List.mem_cons.mp hx with rfl | hx
      · rfl
      · rw [List.mem_singleton.mp hx]; rfl
    have hsock : s3.sockList = s2.sockList := (congrArg Daemon.sockList hadds.rest :)
    have k3 : SockKept s2 s3 := hadds.sock fun e he b hd => by
      rw [he] at hd
      cases hd
      simpa only [Daemon.sock?, hsock] using hsome
    split at h
    · next hlt =>
      refine destroySockBuf_sock h (fun e he hd => ?_) (k3 (k2 hs1))
      -- nothing was registered, and the address of the buffer is new
      rw [registerEvents_failed h3 hlt, hev2] at he
      exact Nat.lt_irrefl _ (hs1.bound _ (hs1.live e he _ hd))
    · cases h
      exact k3 (k2 hs1)

theorem onAcceptCmdSock_apart (io : Io) : Keeps Apart (onAcceptCmdSock env io) := by
  refine keeps_apart (onAcceptCmdSock_aside io) ?_
  unfold onAcceptCmdSock
  split
  · exact .pure _
  · exact acceptConnection_sock _ _

/-! ## Transfers -/

@[simp] theorem SockBuf.sendDone_addr (sb : SockBuf) (now : Int) (r : SendResult) :
    (sb.sendDone now r).1.addr = sb.addr := by
  cases r with
  | sent n => simp only [sendDone]; split <;> rfl
  | _ => rfl

@[simp] theorem SockBuf.received_addr (sb : SockBuf) (ok : Bool) (now : Int) (r : RecvResult) :
    (sb.received ok now r).1.addr = sb.addr := by
  unfold received
  split
  · rfl
  · rfl
  · rfl
  · split
    · rfl
    · split
      · simp only [recvSize]; split <;> (try split) <;> (try split) <;> rfl
      · rfl

theorem getSock_apart (sb : SockBuf) : Keeps Apart (getSock sb) := .bind .get fun _ => .pure _

theorem dropConnection_apart (sb : SockBuf) : Keeps Apart (dropConnection sb) :=
  keeps_apart (dropConnection_aside sb) (dropConnection_sock sb)

theorem modSock_apart (hf : ∀ x, (f x).addr = x.addr) :
    Keeps Apart (modSock b f) := keeps_apart (modSock_aside b f) (modSock_sock hf)

theorem setSockBufWaitFlags_apart (b : Addr) {recvF sendF : EvFlags} (hr : recvF ≠ .oneshot)
    (hs : sendF ≠ .oneshot) : Keeps Apart (setSockBufWaitFlags env b recvF sendF) :=
  keeps_apart (setSockBufWaitFlags_aside b hr hs) (setSockBufWaitFlags_sock b recvF sendF)

theorem recvSockBuf_apart (sb : SockBuf) (r : RecvResult) (now : Int) : Keeps Apart (recvSockBuf env sb r now) :=
  .bind keeps fun ok => .bind (modSock_apart fun b => b.received_addr ok now r) fun _ => .pure _

theorem sendSockBuf_apart (sb : SockBuf) (r : SendResult) (now : Int) : Keeps Apart (sendSockBuf env sb r now) :=
  .ite (fun _ => .pure _) fun _ => .bind keeps fun _ => .ite (fun _ => .pure _) fun _ =>
    .bind (modSock_apart fun b => b.sendDone_addr now r) fun _ =>
      .bind (.bind keeps fun _ => modSock_apart fun _ => rfl) fun _ => .pure _

theorem fault_apart (b : Addr) : Keeps Apart (fault (.dangling b)) :=
  .modify fun _ => .of_eq rfl (Nat.le_refl _) rfl rfl ⟨[_], rfl, by simp⟩ rfl rfl

theorem onSendSockBuf_apart (b : Addr) (io : Io) : Keeps Apart (onSendSockBuf env b io) := by
  refine .bind .get fun s => ?_
  split
  · exact fault_apart _
  · exact .bind (sendSockBuf_apart _ _ _) fun _ => .bind (getSock_apart _) fun _ =>
        .ite (fun _ => .bind (modSock_apart fun _ => rfl) fun _ =>
          .bind (setSockBufWaitFlags_apart _ (by decide) (by decide)) fun _ => .pure _)
        fun _ => .ite (fun _ => .pure _) fun _ => dropConnection_apart _

theorem onSigterm_apart : Keeps Apart onSigterm :=
  .modify fun _ => .of_eq rfl (Nat.le_refl _) rfl rfl ⟨[], rfl, by simp⟩ rfl rfl

theorem registerPluginEvent_apart (k : Kev) : Keeps Apart (registerPluginEvent env k) :=
  registerEvent0_apart fun _ => ⟨rfl, rfl⟩

theorem waitForCmdSock_apart (fd : Fd) : Keeps Apart (waitForCmdSock env fd) :=
  registerEvent0_apart fun _ => ⟨rfl, rfl, rfl, rfl⟩

/-! ## Requests that only ask -/

theorem nvlistGetString_apart (nv : NvList) (k : String) : Keeps Apart (nvlistGetString nv k) := by
  unfold nvlistGetString
  split
  · exact .throw _
  · exact .pure _

theorem requestedVm_apart (nv : NvList) (ucred : Xucred) : Keeps Apart (requestedVm nv ucred) :=
  .bind (nvlistGetString_apart _ _) fun _ => .bind .get fun _ => .pure _

theorem chownDevice_apart (fn : String) (uid : Int) (tries : Nat) : Keeps Apart (chownDevice env fn uid tries) := by
  induction tries with
  | zero => exact .pure _
  | succ tries ih =>
    refine .bind keeps fun _ => .ite (fun _ => ih) fun _ => .bind keeps fun _ => .ite (fun _ => ih) fun _ => ?_
    exact .modify fun _ => .of_eq rfl (Nat.le_refl _) rfl rfl ⟨[], rfl, by simp⟩ rfl rfl

theorem chownComport_apart (com : Option String) (ucred : Xucred) : Keeps Apart (chownComport env com ucred) := by
  unfold chownComport
  split
  · exact .pure _
  · exact .bind keeps fun _ => .ite (fun _ => .pure _) fun _ => chownDevice_apart _ _ _

theorem showcomportCommand_apart (nv : NvList) (ucred : Xucred) : Keeps Apart (showcomportCommand env nv ucred) := by
  refine .bind (requestedVm_apart _ _) fun v => ?_
  cases v with
  | none => exact .pure _
  | some v =>
    refine .bind .get fun t => ?_
    dsimp only
    exact .ite (fun _ => .bind (chownComport_apart _ _) fun _ => .bind keeps fun _ => .pure _)
      fun _ => .pure _

theorem showvgaportCommand_apart (nv : NvList) (ucred : Xucred) : Keeps Apart (showvgaportCommand nv ucred) := by
  refine .bind (requestedVm_apart _ _) fun v => ?_
  cases v with
  | none => exact .pure _
  | some v => exact .bind .get fun _ => .pure _

theorem respondError_apart (b : Addr) (reason : String) : Keeps Apart (respondError env b reason) := by
  unfold respondError
  split
  · exact .bind (modSock_apart fun _ => rfl) fun _ => .pure _
  · exact .bind (modSock_apart fun _ => rfl) fun _ => .pure _

theorem respond_apart (b : Addr) (res : NvList) : Keeps Apart (respond env b res) := by
  refine .bind (modSock_apart fun _ => rfl) fun _ => ?_
  split
  · exact respondError_apart _ _
  · exact .bind (modSock_apart fun _ => rfl) fun _ => .pure _

/-! ## Requests as a whole -/

/-- The relation does not see what happens beside the VMs, and the commands that concern a VM keep it. -/
structure Serves (env : Env) (R : Daemon → Daemon → Prop) : Prop where
  apart : ∀ {s s' : Daemon}, Apart s s' → R s s'
  down : ∀ {nv : NvList} {how : DownHow} {ucred : Xucred}, Keeps R (vmDownCommand env nv how ucred)
  boot : ∀ {nv : NvList} {install : Bool} {ucred : Xucred} {load : Option (List LoadedConf)},
    Keeps R (boot0Command env nv install ucred load)

namespace Serves

variable {R : Daemon → Daemon → Prop}

theorem beside (k : Serves env R) {α : Type} {m : Bmd.Prog α} (h : Keeps Apart m) : Keeps R m :=
  h.mono fun _ _ => k.apart

theorem runCommand (k : Serves env R) (nv : NvList) (ucred : Xucred) (load : Option (List LoadedConf)) (c : Command) :
    Keeps R (runCommand env nv ucred load c) := by
  cases c with
  | boot | install => exact k.boot
  | list => exact k.beside (m := listCommand env ucred) keeps
  | poweroff | reset | shutdown => exact k.down
  | showcomport => exact k.beside (showcomportCommand_apart _ _)
  | showvgaport => exact k.beside (showvgaportCommand_apart _ _)

variable [IsPreorder Daemon R]

theorem recvCommand (k : Serves env R) (sb : SockBuf) (load : Option (List LoadedConf)) :
    Keeps R (recvCommand env sb load) := by
  unfold Bmd.recvCommand
  split
  · exact .pure _
  · refine .bind (k.beside (nvlistGetString_apart _ _)) fun c => ?_
    split
    · exact k.beside (respondError_apart _ _)
    · exact .bind (k.runCommand _ _ _ _) fun _ => k.beside (respond_apart _ _)

theorem onRecvSockBuf (k : Serves env R) (a : Addr) (io : Io) : Keeps R (onRecvSockBuf env a io) := by
  refine .bind .get fun s => ?_
  split
  · exact k.beside (fault_apart _)
  · refine .bind (k.beside (recvSockBuf_apart _ _ _)) fun rc => .bind (k.beside (getSock_apart _)) fun sb =>
      .ite (fun _ => ?_) fun _ => .ite (fun _ => .pure _) fun _ => k.beside (dropConnection_apart _)
    exact .bind (k.recvCommand _ _) fun _ => .ite
      (fun _ => .bind (k.beside (modSock_apart fun _ => rfl)) fun _ =>
        .bind (k.beside (setSockBufWaitFlags_apart _ (by decide) (by decide))) fun _ => .pure _)
      fun _ => .pure _

end Serves

end Bmd
