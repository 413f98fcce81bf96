import Bmd.Correctness.Lifetime

/-!
# `Correctness.Idle` — idle connections are closed

`event_loop` waits no longer than `calc_timeout` says and calls `close_timeout_sock_buf` when the wait was in vain.
A negative time is returned as `NULL`, which `kevent` takes for a wait without end: a connection that is already past
its deadline when the wait is computed keeps the daemon from closing any of them.
-/

namespace Bmd

open Lib Lib.Prog

variable {s s' : Daemon} {timeout start now m : Int}

/-! ## The wait -/

/-- The time of the connection that has been idle for the longest. -/
def Daemon.oldest (s : Daemon) : Option Int := (s.sockList.map (·.eventTime)).min?

/-- The loop of `calc_timeout` looks for the oldest connection. -/
theorem foldl_oldest (l : List SockBuf) (m : Int) :
    l.foldl (fun m q => if q.eventTime < m then q.eventTime else m) m = (l.map (·.eventTime)).foldl min m := by
  induction l generalizing m with
  | nil => rfl
  | cons q rest ih =>
    rw [List.foldl_cons, List.map_cons, List.foldl_cons, ih]
    congr 1
    split <;> omega

theorem calcTimeout_oldest (hm : s.oldest = some m) :
    calcTimeout s timeout start = if m + timeout - start < 0 then none else some (m + timeout - start) := by
  unfold calcTimeout
  unfold Daemon.oldest at hm
  cases hl : s.sockList with
  | nil =>
    rw [hl] at hm
    cases hm
  | cons p rest =>
    rw [hl] at hm
    have hfold := Option.some.inj hm
    simp only [foldl_oldest, hfold]

theorem calcTimeout_finite (hm : s.oldest = some m) (h : start ≤ m + timeout) :
    calcTimeout s timeout start = some (max 0 (m + timeout - start)) := by
  rw [calcTimeout_oldest hm, if_neg (by omega)]
  congr 1
  omega

/-- Past the first deadline the wait has no end. -/
theorem calcTimeout_late (hm : s.oldest = some m) (h : m + timeout < start) : calcTimeout s timeout start = none := by
  rw [calcTimeout_oldest hm, if_pos (by omega)]

/-! ## Closing -/

/-- What `VM_CLOSE` closes. -/
def openFd (fd : Fd) : List Fd := if fd != -1 then [fd] else []

/-- The descriptors a connection holds. -/
def SockBuf.descriptors (sb : SockBuf) : List Fd := sb.fd :: openFd sb.resFd

theorem vmClose_closes (fd : Fd) (s : Daemon) :
    ∃ s', vmClose fd s = .ok ((), s') ∧ s'.sockList = s.sockList ∧ s'.fds = s.fds.diff (openFd fd) := by
  unfold vmClose whenever openFd
  split
  · exact ⟨_, rfl, rfl, by simp [List.diff_cons]⟩
  · exact ⟨s, rfl, rfl, rfl⟩

theorem destroySockBuf_closes (sb : SockBuf) (s : Daemon) : ∃ s', destroySockBuf sb s = .ok ((), s') ∧
    s'.sockList = s.sockList.filter (·.addr != sb.addr) ∧ s'.fds = s.fds.diff sb.descriptors := by
  obtain ⟨s', h, hsocks, hfds⟩ := vmClose_closes sb.resFd
    { s with
      sockList := s.sockList.filter (·.addr != sb.addr)
      fds := s.fds.erase sb.fd
      pipes := s.pipes.filter (·.2 != sb.fd)
      eventList := s.eventList.map fun e =>
        if (e.filter == .read || e.filter == .write) && e.ident == sb.fd then { e with armed := false } else e }
  refine ⟨s', bind_ok.mpr ⟨(), _, rfl, bind_ok.mpr ⟨(), _, rfl, h⟩⟩, hsocks, ?_⟩
  rw [hfds, SockBuf.descriptors, List.diff_cons]

/-- The loop of `close_timeout_sock_buf` closes the connections of its list that are due. -/
theorem closeTimedOut_closes (timeout now : Int) (l : List SockBuf) (s : Daemon) :
    ∃ s', closeTimedOut timeout now l s = .ok ((), s') ∧
    s'.sockList = s.sockList.filter (fun b => (l.filter (·.timedOut timeout now)).all fun sb => b.addr != sb.addr) ∧
    s'.fds = s.fds.diff ((l.filter (·.timedOut timeout now)).flatMap SockBuf.descriptors) := by
  induction l generalizing s with
  | nil => exact ⟨s, rfl, (List.filter_eq_self.mpr fun _ _ => rfl).symm, rfl⟩
  | cons sb rest ih =>
    by_cases hdue : sb.timedOut timeout now = true
    · have hcons : (sb :: rest).filter (·.timedOut timeout now) = sb :: rest.filter (·.timedOut timeout now) :=
        List.filter_cons_of_pos (p := fun b : SockBuf => b.timedOut timeout now) hdue
      obtain ⟨s₁, h₁, hsocks₁, hfds₁⟩ := destroySockBuf_closes sb s
      obtain ⟨s', h, hsocks, hfds⟩ := ih s₁
      refine ⟨s', bind_ok.mpr ⟨(), s₁, ?_, h⟩, ?_, ?_⟩
      · rw [whenever, if_pos hdue]
        exact h₁
      · rw [hsocks, hsocks₁, List.filter_filter, hcons]
        simp only [List.all_cons, Bool.and_comm]
      · rw [hfds, hfds₁, hcons, List.flatMap_cons, List.diff_append]
    · obtain ⟨s', h, hsocks, hfds⟩ := ih s
      rw [List.filter_cons_of_neg (p := fun b : SockBuf => b.timedOut timeout now) hdue]
      refine ⟨s', bind_ok.mpr ⟨(), s, ?_, h⟩, hsocks, hfds⟩
      rw [whenever, if_neg hdue]
      rfl

/-- Among connections with different addresses, those that stay are not due. -/
theorem stays_iff {l : List SockBuf} (hnd : (l.map (·.addr)).Nodup) {b : SockBuf} (hb : b ∈ l) :
    ((l.filter (·.timedOut timeout now)).all fun sb => b.addr != sb.addr) = !b.timedOut timeout now := by
  rw [Bool.eq_iff_iff, List.all_eq_true, Bool.not_eq_true']
  constructor
  · intro h
    by_contra hdue
    have hself := h b (List.mem_filter.mpr ⟨hb, Bool.not_eq_false _ ▸ hdue⟩)
    simp at hself
  · intro hstays sb hsb
    obtain ⟨hmem, hdue⟩ := List.mem_filter.mp hsb
    rw [bne_iff_ne]
    intro haddr
    rw [List.inj_on_of_nodup_map hnd hb hmem haddr, hdue] at hstays
    cases hstays

/-- What the event loop owes the connections when it begins to wait at `start`: the wait has an end, and when it
    ends in vain then the connections that are due are closed, one at least. -/
structure TimesOut (s : Daemon) (timeout start m : Int) : Prop where
  finite : calcTimeout s timeout start = some (max 0 (m + timeout - start))
  closes : ∀ t now, calcTimeout s timeout start = some t → start + t ≤ now →
    ∃ s', closeTimeoutSockBuf timeout now s = .ok ((), s') ∧
      s'.sockList = s.sockList.filter (fun sb => ¬sb.eventTime + timeout ≤ now) ∧
      s'.fds = s.fds.diff ((s.sockList.filter fun sb => sb.eventTime + timeout ≤ now).flatMap SockBuf.descriptors) ∧
      ∃ sb ∈ s.sockList, sb.eventTime + timeout ≤ now

theorem closeTimeoutSockBuf_closes (timeout now : Int) (hnd : (s.sockList.map (·.addr)).Nodup) :
    ∃ s', closeTimeoutSockBuf timeout now s = .ok ((), s') ∧
      s'.sockList = s.sockList.filter (fun sb => ¬sb.eventTime + timeout ≤ now) ∧
      s'.fds = s.fds.diff ((s.sockList.filter fun sb => sb.eventTime + timeout ≤ now).flatMap SockBuf.descriptors) := by
  obtain ⟨s', h, hsocks, hfds⟩ := closeTimedOut_closes timeout now s.sockList s
  refine ⟨s', bind_ok.mpr ⟨s, s, rfl, h⟩, ?_, hfds⟩
  rw [hsocks]
  apply List.filter_congr
  intro b hb
  rw [stays_iff hnd hb, decide_not]
  rfl

/-- **Idle connections are timed out exactly if the first deadline has not passed when the wait begins.** -/
theorem idle_timeout_iff (hnd : (s.sockList.map (·.addr)).Nodup) (hm : s.oldest = some m) :
    TimesOut s timeout start m ↔ start ≤ m + timeout := by
  constructor
  · intro h
    by_contra hlate
    have hfinite := h.finite
    rw [calcTimeout_late hm (by omega)] at hfinite
    cases hfinite
  · intro hle
    refine ⟨calcTimeout_finite hm hle, ?_⟩
    intro t now ht hnow
    obtain ⟨s', h, hsocks, hfds⟩ := closeTimeoutSockBuf_closes timeout now hnd
    -- the oldest connection is due
    obtain ⟨sb, hsb, rfl⟩ := List.mem_map.mp (List.min?_mem hm)
    rw [calcTimeout_finite hm hle] at ht
    have ht := Option.some.inj ht
    exact ⟨s', h, hsocks, hfds, sb, hsb, by omega⟩

/-- A client connects, and the daemon waits in time. -/
theorem idle_timeout_iff_connection : ∃ s, Reach (bmd .ideal) anyStep s ∧ s.oldest = some 0 ∧
    TimesOut s commandTimeoutSec 10 0 := by
  obtain ⟨s, hr, hnd, hm⟩ : ∃ s, Reach (bmd .ideal) anyStep s ∧ (s.sockList.map (·.addr)).Nodup ∧ s.oldest = some 0 :=
    exists_reach [csmVm] [.event 10 { accept := some none }] (by decide +kernel)
  exact ⟨s, hr, hm, (idle_timeout_iff hnd hm).mpr (by decide)⟩

/-- **A late wait has no end.** A client connected at time 0 and the events after it took 31 seconds: from then on
    the daemon waits without a timeout, and the connection is not closed however long it stays idle. -/
theorem idle_wait_infinite : ∃ s, Reach (bmd .ideal) anyStep s ∧ s.oldest = some 0 ∧
    calcTimeout s commandTimeoutSec 31 = none ∧
    ∀ start now s', 31 ≤ start → ¬(bmd .ideal).step s (.timeout start now) s' := by
  obtain ⟨s, hr, hm⟩ : ∃ s, Reach (bmd .ideal) anyStep s ∧ s.oldest = some 0 :=
    exists_reach [csmVm] [.event 10 { accept := some none }] (by decide +kernel)
  refine ⟨s, hr, hm, calcTimeout_late hm (by decide), ?_⟩
  intro start now s' hstart hstep
  have hlate : calcTimeout s commandTimeoutSec start = none := by
    apply calcTimeout_late hm
    show 0 + 30 < start
    omega
  have hadv := (advance_of_step hstep).2
  simp [advance, hlate] at hadv

end Bmd
