import Bmd.Correctness.Runs

/-!
# `Correctness.Records` — the events as they lie in memory

`eventList` is what `event_list` is meant to be; `memory.linked` is what a walk from its head meets. The two are the same
list as long as no record is freed twice, which is `Mirrored`. Every function of the daemon keeps it but the release of
an event by its dispatcher, and that one keeps it when the event is still in the list.
-/

namespace Bmd

open Lib Lib.Prog

variable {env : Env} {s s' : Daemon} {a x : Addr} {io : Io} {sb : SockBuf} {u : Unit}

/-- **The records in memory are the events**, in the order of the list, and the allocator has none of them. -/
structure Daemon.Mirrored (s : Daemon) : Prop where
  linked : s.memory.linked.map Event.key = s.eventList.map Event.key
  free : s.memory.free = none
  given : s.memory.given = []

theorem map_filter_of_map {α β : Type} {k : α → β} {f : α → Bool} (hf : ∀ x y, k x = k y → f x = f y) :
    ∀ {l l' : List α}, l.map k = l'.map k → (l.filter f).map k = (l'.filter f).map k
  | [], [], _ => rfl
  | [], _ :: _, h | _ :: _, [], h => by cases h
  | x :: l, y :: l', h => by
    obtain ⟨hk, hl⟩ := List.cons.inj h
    have ih := map_filter_of_map hf hl
    rw [List.filter_cons, List.filter_cons, hf x y hk]
    split
    · rw [List.map_cons, List.map_cons, hk, ih]
    · exact ih

namespace Daemon.Mirrored

theorem congr (h : s.Mirrored) (he : s'.eventList.map Event.key = s.eventList.map Event.key)
    (hm : s'.memory = s.memory) : s'.Mirrored :=
  ⟨by rw [hm, h.linked, he], by rw [hm, h.free], by rw [hm, h.given]⟩

/-- Fields of events are written that do not identify them. -/
theorem map {g : Event → Event} (h : s.Mirrored) (hg : ∀ e, (g e).key = e.key)
    (he : s'.eventList = s.eventList.map g) (hm : s'.memory = s.memory) : s'.Mirrored := by
  refine h.congr ?_ hm
  rw [he, List.map_map]
  exact List.map_congr_left fun e _ => hg e

theorem watch (h : s.Mirrored) (e : Event) : (s.watch e).Mirrored := by
  have hins : s.memory.insertHead e = { s.memory with linked := e :: s.memory.linked } := by
    simp only [EventMemory.insertHead, h.free]
  refine ⟨?_, ?_, ?_⟩
  · simp only [Daemon.watch, hins, List.map_cons, h.linked]
  · simp only [Daemon.watch, hins, h.free]
  · simp only [Daemon.watch, hins, h.given]

theorem sweep {fn : Event → Bool} (hkey : ∀ e e', e.key = e'.key → fn e = fn e') :
    Keeps (Carries Daemon.Mirrored) (stopWaitingFor fn) := by
  refine .modify fun s h => ⟨?_, ?_, h.given⟩
  · exact map_filter_of_map (fun e e' he => by rw [hkey e e' he]) h.linked
  · show s.memory.free.map _ = none
    rw [h.free]
    rfl

/-- The dispatcher releases an event that is in the list. -/
theorem release (h : s.Mirrored) (hx : s.holds x) (hr : releaseEvent x s = .ok (u, s')) : s'.Mirrored := by
  have hs' := of_modify hr
  obtain ⟨e, he, hex⟩ := hx
  rw [if_pos (List.any_eq_true.mpr ⟨e, he, by simp [hex]⟩)] at hs'
  have hrec : s.memory.record x = x := by simp [EventMemory.record, h.given]
  have hrem : s.memory.remove x = { s.memory with linked := s.memory.linked.filter (·.addr != x) } := by
    simp only [EventMemory.remove, hrec, h.free]
    rfl
  rw [hs', hrem]
  refine ⟨map_filter_of_map (fun e e' hk => ?_) h.linked, h.free, h.given⟩
  rw [show e.addr = e'.addr from congrArg Prod.fst hk]

end Daemon.Mirrored

/-! ## The functions of the daemon -/

instance (k : Store) : Changes (Carries Daemon.Mirrored) k where
  change {s s'} h hs := by
    refine hs.congr ?_ ?_
    · rw [← sans_eventList s' k, h, sans_eventList]
    · rw [← sans_memory s' k, h, sans_memory]

instance : Counts (Carries Daemon.Mirrored) := ⟨fun h => h.congr rfl rfl, fun h => h.congr rfl rfl⟩

instance : Watches (Carries Daemon.Mirrored) where
  watch _ := fun h => h.watch _
  unwatch _ hkey := Daemon.Mirrored.sweep hkey

instance : Closes (Carries Daemon.Mirrored) where
  close fd := .modify fun s h => h.map (fun e => by split <;> rfl) rfl rfl

/-! ## Connections -/

instance (f : SockBuf → SockBuf) : Preserves (Carries Daemon.Mirrored) (modSock a f) := .modify fun _ h => h.congr rfl rfl

instance : Preserves (Carries Daemon.Mirrored) (getSock sb) := by
  unfold getSock
  infer_instance

instance : Preserves (Carries Daemon.Mirrored) (destroySockBuf sb) :=
  .bind (.modify fun _ h => h.congr rfl rfl) fun _ => inferInstance

instance closeTimedOut_mirrored (timeout now : Int) :
    ∀ l, Preserves (Carries Daemon.Mirrored) (closeTimedOut timeout now l)
  | [] => inferInstanceAs (Preserves _ (pure _))
  | _ :: rest => .bind inferInstance fun _ => closeTimedOut_mirrored timeout now rest

instance : Preserves (Carries Daemon.Mirrored) (dropConnection sb) :=
  .bind (Preserves.of_keeps (Daemon.Mirrored.sweep fun e e' h => by simp_all [Event.key, hasData])) fun _ => inferInstance

instance (fd : Fd) (now : Int) (peer : Option Xucred) :
    Preserves (Carries Daemon.Mirrored) (createSockBuf env fd now peer) := by
  have hins : ∀ a, Preserves (Carries Daemon.Mirrored)
      (modify fun s => { s with sockList := mkSockBuf a fd now peer :: s.sockList } : Bmd.Prog Unit) := fun a =>
    .modify fun _ h => h.congr rfl rfl
  unfold createSockBuf
  infer_instance

theorem insertEvents_mirrored : ∀ addrs (l : List (Kev × Callback × Data)),
    Preserves (Carries Daemon.Mirrored) (insertEvents addrs l)
  | _ :: addrs, _ :: rest => .bind (.modify fun _ h => h.watch _) fun _ => insertEvents_mirrored addrs rest
  | [], _ => inferInstanceAs (Preserves _ (pure _))
  | _ :: _, [] => inferInstanceAs (Preserves _ (pure _))

instance (fd : Fd) : Preserves (Carries Daemon.Mirrored) (waitForSockBuf env a fd) := by
  have hins := insertEvents_mirrored
  unfold waitForSockBuf registerEvents
  infer_instance

theorem waitFlags_key (found : List Event) (recvF sendF : EvFlags) (e : Event) :
    (waitFlags found recvF sendF e).key = e.key := by
  unfold waitFlags
  split
  · rfl
  · split <;> rfl

instance (recvF sendF : EvFlags) : Preserves (Carries Daemon.Mirrored) (setSockBufWaitFlags env a recvF sendF) := by
  have hmap : ∀ found, Preserves (Carries Daemon.Mirrored)
      (modify fun s => { s with eventList := s.eventList.map (waitFlags found recvF sendF) } : Bmd.Prog Unit) :=
    fun found => .modify fun _ h => h.map (waitFlags_key found recvF sendF) rfl rfl
  unfold setSockBufWaitFlags
  infer_instance

instance (r : SendResult) (now : Int) : Preserves (Carries Daemon.Mirrored) (sendSockBuf env sb r now) := by
  unfold sendSockBuf dropResFd
  infer_instance

instance (r : RecvResult) (now : Int) : Preserves (Carries Daemon.Mirrored) (recvSockBuf env sb r now) := by
  unfold recvSockBuf
  infer_instance

instance (reason : String) : Preserves (Carries Daemon.Mirrored) (respondError env a reason) := by
  unfold respondError
  split <;> infer_instance

instance (res : NvList) : Preserves (Carries Daemon.Mirrored) (respond env a res) := by
  refine .bind inferInstance fun _ => ?_
  split <;> infer_instance

instance (load : Option (List LoadedConf)) : Preserves (Carries Daemon.Mirrored) (recvCommand env sb load) := by
  unfold recvCommand
  split
  · infer_instance
  · refine .bind inferInstance fun cmd => ?_
    split <;> infer_instance

instance : Preserves (Carries Daemon.Mirrored) (recvConnection env sb io) := by
  unfold recvConnection onRequest
  infer_instance

instance : Preserves (Carries Daemon.Mirrored) (sendConnection env sb io) := by
  unfold sendConnection
  infer_instance

instance (now : Int) (peer : Option Xucred) : Preserves (Carries Daemon.Mirrored) (acceptConnection env now peer) := by
  refine .bind inferInstance fun fd => .bind inferInstance fun o => ?_
  split <;> infer_instance

/-! ## Callbacks -/

/-- **Every callback** keeps the records in step. -/
instance callback_mirrored (e : Event) : Preserves (Carries Daemon.Mirrored) (callback env e io) := by
  have hrecv : ∀ a, Preserves (Carries Daemon.Mirrored) (onRecvSockBuf env a io) := fun a => by
    refine .bind inferInstance fun t => ?_
    split <;> infer_instance
  have hsend : ∀ a, Preserves (Carries Daemon.Mirrored) (onSendSockBuf env a io) := fun a => by
    refine .bind inferInstance fun t => ?_
    split <;> infer_instance
  have haccept : Preserves (Carries Daemon.Mirrored) (onAcceptCmdSock env io) := by
    unfold onAcceptCmdSock
    split <;> infer_instance
  have hsigterm : Preserves (Carries Daemon.Mirrored) onSigterm := .modify fun _ h => h.congr rfl rfl
  unfold callback
  split <;> infer_instance

theorem boot_mirrored {load : List LoadedConf} {off : Int} (h : boot env load off = some s) : s.Mirrored := by
  obtain ⟨u, h⟩ := exec_some h
  exact preserved (R := Carries Daemon.Mirrored) h ⟨rfl, rfl, rfl⟩

end Bmd
