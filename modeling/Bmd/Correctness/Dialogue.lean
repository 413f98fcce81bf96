import Bmd.Correctness.Requests

/-!
# `Correctness.Dialogue` — requests and responses of a connection in turns

`Serving` is the invariant of an open connection: it has one write and one read event, the buffer holds the beginning
of the next frame, and the read event is enabled only when no response is pending. The module shows what each kind of
step does to it, and from that what the bodies passed to `recv_command` are in every run.
-/

namespace Bmd

open Lib Lib.Prog

variable {s s' t t' : Daemon} {a b : Addr} {env : Env} {sb sb' : SockBuf} {now rc : Int} {p : List UInt8} {u : Unit}
  {w r : Event} {pending : Bool} {io : Io} {e : Event} {peer : Option Xucred} {recvF sendF : EvFlags} {fd : Fd}
  {x : Addr}

/-! ## The events of a connection -/

/-- The connection has a write and a read event. -/
structure Lines (s : Daemon) (a : Addr) (w r : Event) : Prop where
  eq : s.linesOf a = [w, r]
  write : w.filter = .write
  read : r.filter = .read
  ne : w.addr ≠ r.addr

theorem Lines.of_eq (h : Lines s a w r) (heq : s'.linesOf a = s.linesOf a) : Lines s' a w r :=
  ⟨heq.trans h.eq, h.write, h.read, h.ne⟩

/-- The events themselves, with their knotes. -/
theorem Lines.events (h : Lines s a w r) : ∃ w₀ r₀ : Event, s.eventList.filter (·.data == .sock a) = [w₀, r₀] ∧
    ({ w₀ with armed := true } : Event) = w ∧ ({ r₀ with armed := true } : Event) = r := by
  obtain ⟨w₀, l, hl, hw, hrest⟩ := List.map_eq_cons_iff.mp h.eq
  obtain ⟨r₀, l', hl', hr, hnil⟩ := List.map_eq_cons_iff.mp hrest
  rw [List.map_eq_nil_iff.mp hnil] at hl'
  exact ⟨w₀, r₀, by rw [hl, hl'], hw, hr⟩

theorem mem_linesOf (he : e ∈ s.eventList) (hd : e.data = .sock a) : ({ e with armed := true } : Event) ∈ s.linesOf a :=
  List.mem_map.mpr ⟨e, List.mem_filter.mpr ⟨he, by rw [hd]; exact beq_self_eq_true _⟩, rfl⟩

/-- An event of the connection is one of the two. -/
theorem Lines.mem (h : Lines s a w r) (he : e ∈ s.eventList) (hd : e.data = .sock a) :
    ({ e with armed := true } : Event) = w ∨ ({ e with armed := true } : Event) = r := by
  have hmem := mem_linesOf he hd
  rw [h.eq] at hmem
  simpa using hmem

/-- `set_sock_buf_wait_flags` finds both events. -/
theorem Lines.found {w₀ r₀ : Event} (h : s.eventList.filter (·.data == .sock a) = [w₀, r₀]) (hw : w₀.filter = .write)
    (hr : r₀.filter = .read) : sockBufEvents s a = [w₀, r₀] := by
  have hsplit : (s.eventList.filter fun e => e.data == .sock a && (e.filter == .read || e.filter == .write)) =
      (s.eventList.filter (·.data == .sock a)).filter fun e => e.filter == .read || e.filter == .write := by
    rw [List.filter_filter]
    congr 1
    funext e
    exact Bool.and_comm _ _
  rw [sockBufEvents, hsplit, h]
  simp [hw, hr]

theorem setSockBufWaitFlags_lines (hl : Lines s a w r) (h : setSockBufWaitFlags env a recvF sendF s = .ok (rc, s')) :
    s'.sock? a = s.sock? a ∧ s'.next = s.next ∧
      ∃ w' r', Lines s' a w' r' ∧ ((∀ n, env.kevent n = true) → r'.flags = recvF) := by
  obtain ⟨w₀, r₀, hraw, hw, hr⟩ := hl.events
  have hwf : w₀.filter = .write := by rw [← hl.write, ← hw]
  have hrf : r₀.filter = .read := by rw [← hl.read, ← hr]
  have hne : w₀.addr ≠ r₀.addr := by
    have hne := hl.ne
    rwa [← hw, ← hr] at hne
  replace h := get_bind h
  rw [Lines.found hraw hwf hrf] at h
  simp only [List.isEmpty_cons, Bool.false_eq_true, if_false] at h
  obtain ⟨ok, s1, h1, h⟩ := of_bind h
  cases h1
  split at h
  · next hfail =>
    cases h
    refine ⟨rfl, rfl, w, r, hl.of_eq rfl, fun hk => ?_⟩
    rw [hk] at hfail
    cases hfail
  · obtain ⟨_, s2, h2, h⟩ := of_bind h
    cases h2
    cases h
    refine ⟨rfl, rfl, { w with flags := sendF }, { r with flags := recvF }, ⟨?_, hl.write, hl.read, hl.ne⟩,
      fun _ => rfl⟩
    have hw' : waitFlags [w₀, r₀] recvF sendF w₀ = { w₀ with flags := sendF } := by
      simp [waitFlags, hwf, hrf, Ne.symm hne]
    have hr' : waitFlags [w₀, r₀] recvF sendF r₀ = { r₀ with flags := recvF } := by
      simp [waitFlags, hrf]
    show ((s.eventList.map _).filter _).map _ = _
    simp only [List.filter_map, Function.comp_def, waitFlags_data, hraw, List.map_cons, List.map_nil, hw', hr', ← hw, ← hr]

/-! ## The invariant -/

/-- **An open connection.** `p` is what it has read of the next frame; `pending` says that a request was handed over
    and its response has not been discarded since. -/
inductive Serving (env : Env) (a : Addr) (p : List UInt8) (pending : Bool) (s : Daemon) : Prop where
  | intro {sb : SockBuf} {w r : Event} (hsock : s.sock? a = some sb) (hlines : Lines s a w r) (hread : sb.Reading p)
      (hidle : (∀ n, env.kevent n = true) → r.flags ≠ .disable →
        sb.Stuck ∨ (pending = false ∧ sb.resSize = 0 ∧ sb.resBuf = [])) : Serving env a p pending s

theorem Serving.kept (h : Serving env a p pending s) (hk : ConnKept a s s') : Serving env a p pending s' := by
  cases h with
  | intro hsock hlines hread hidle => exact .intro (hk.sock.trans hsock) (hlines.of_eq hk.lines) hread hidle

theorem SockBuf.reading_clear (sb : SockBuf) : sb.clear.Reading [] := by
  have h : sb.clear.Reading (sb.clear.size.take sb.clear.readSize) :=
    .size rfl rfl (Nat.succ_pos 3) rfl
  exact h

/-- The response fields of a buffer. -/
theorem sock?_of_answers (h : Answers a s s') (hs : s.sock? a = some sb) :
    ∃ sb', s'.sock? a = some sb' ∧ sb'.sansResponse = sb.sansResponse := by
  have hsock := h.sock
  rw [hs] at hsock
  exact Option.map_eq_some_iff.mp hsock

theorem modSock_spec {f : SockBuf → SockBuf} (hf : ∀ x, (f x).addr = x.addr) (h : modSock a f s = .ok (u, s'))
    (hs : s.sock? a = some sb) : s'.sock? a = some (f sb) ∧ s'.linesOf a = s.linesOf a ∧ s'.next = s.next := by
  refine ⟨modSock_lookup h hf hs, ?_, ?_⟩ <;> rw [of_modify h] <;> rfl

/-- The request is complete: it is handed over, and the connection waits for the response to be sent. -/
theorem onRequest_serving (hsock : t.sock? a = some sb) (hlines : Lines t a w r) (hfull : sb.Stuck)
    (h : onRequest env sb io t = .ok (u, t')) : Serving env a [] true t' ∧ t.next ≤ t'.next := by
  have ha : sb.addr = a := Keyed.key_of_find? (k := SockBuf.addr) hsock
  obtain ⟨rc, t1, h1, h⟩ := of_bind h
  have hans := recvCommand_answers _ _ _ _ h1
  rw [ha] at hans h
  obtain ⟨sb1, hs1, heq⟩ := sock?_of_answers hans hsock
  have hl1 := hlines.of_eq hans.lines
  split at h
  · obtain ⟨_, t2, h2, h⟩ := of_bind h
    obtain ⟨hs2, hl2, hn2⟩ := modSock_spec (f := (·.clear)) (fun _ => rfl) h2 hs1
    obtain ⟨_, t3, h3, h⟩ := of_bind h
    cases h
    obtain ⟨hs3, hn3, w', r', hl3, hfl⟩ := setSockBufWaitFlags_lines (hl1.of_eq hl2) h3
    refine ⟨.intro (hs3.trans hs2) hl3 sb1.reading_clear fun hk hne => (hne (hfl hk)).elim, ?_⟩
    rw [hn3, hn2]
    exact hans.next
  · cases h
    have hstuck := SockBuf.stuck_of_sansResponse heq hfull
    exact ⟨.intro hs1 hl1 (.stuck hstuck) fun _ _ => .inl hstuck, hans.next⟩

theorem dropConnection_gone (ha : sb.addr = a) (h : dropConnection sb t = .ok (u, t')) :
    t'.sock? a = none ∧ t.next = t'.next := by
  obtain ⟨_, t1, h1, h⟩ := of_bind h
  obtain ⟨_, t2, h2, h⟩ := of_bind h
  obtain ⟨_, t3, h3, h⟩ := of_bind h
  have hs2 : t2.sock? a = none := by
    rw [of_modify h2, ← ha]
    exact Keyed.find?_filter_self (k := SockBuf.addr) _ _
  have hn2 : t2.next = t.next := by
    rw [of_modify h2, of_modify h1]
  have hs3 : t3.sock? a = none ∧ t3.next = t.next := by
    rw [of_modify h3]
    exact ⟨hs2, hn2⟩
  refine ⟨(vmClose_sock? h).trans hs3.1, ?_⟩
  unfold vmClose whenever at h
  split at h <;> cases h <;> exact hs3.2.symm

/-- **A readable event.** -/
theorem recvConnection_serving (hsock : t.sock? a = some sb) (hlines : Lines t a w r) (hread : sb.Reading p)
    (hidle : (∀ n, env.kevent n = true) → sb.Stuck ∨ (pending = false ∧ sb.resSize = 0 ∧ sb.resBuf = []))
    (h : recvConnection env sb io t = .ok (u, t')) : t.next ≤ t'.next ∧ (t'.sock? a = none ∨
      (sb.hands io.recv = [] ∧ Serving env a (p ++ sb.consumes io.recv) pending t') ∨
      ∃ body, sb.hands io.recv = [body] ∧ validSize body.length ∧
        p ++ sb.consumes io.recv = Framing.frame htonl body ∧ ¬sb.Stuck ∧ Serving env a [] true t') := by
  have ha : sb.addr = a := Keyed.key_of_find? (k := SockBuf.addr) hsock
  obtain ⟨rc, t1, h1, h⟩ := of_bind h
  obtain ⟨ok, t2, h2, h1⟩ := of_bind h1
  cases h2
  obtain ⟨_, t3, h3, h1⟩ := of_bind h1
  cases h1
  rw [ha] at h3
  obtain ⟨hs3, hl3, hn3⟩ := modSock_spec (fun x => x.received_addr _ io.now io.recv) h3 hsock
  have hlines3 := hlines.of_eq hl3
  have hn3 : _ = t.next := hn3
  obtain ⟨sb3, t4, h4, h⟩ := of_bind h
  replace h4 := get_bind h4
  obtain ⟨rfl, rfl⟩ := pure_ok.mp h4
  rw [ha, hs3, Option.getD_some] at h
  have hrec := hread.received (env.malloc t.tick) io.now io.recv
  have hres := sb.received_response (env.malloc t.tick) io.now io.recv
  generalize hrc : (sb.received (env.malloc t.tick) io.now io.recv).2 = rc at h hrec
  cases hrec with
  | more hR hstuck =>
    simp only [show ¬(1 : Int) = 2 by decide, if_false, if_true] at h
    cases h
    refine ⟨Nat.le_of_eq hn3.symm, .inr (.inl ⟨SockBuf.hands_of_ne _ _ (by rw [hrc]; decide), ?_⟩)⟩
    refine .intro hs3 hlines3 hR fun hk _ => ?_
    rw [hres.1, hres.2]
    exact (hidle hk).imp_left hstuck
  | whole hv hp hbuf hfull hns =>
    simp only [if_true] at h
    obtain ⟨hserv, hnext⟩ := onRequest_serving hs3 hlines3 hfull h
    refine ⟨hn3 ▸ hnext, .inr (.inr ⟨_, ?_, hv, hp, hns, hserv⟩)⟩
    rw [SockBuf.hands_of_two _ _ hrc, hbuf]
  | failed hne1 hne2 =>
    simp only [hne1, hne2, if_false] at h
    obtain ⟨hgone, hnext⟩ := dropConnection_gone ((SockBuf.received_addr _ _ _ _).trans ha) h
    exact ⟨Nat.le_of_eq (hn3.symm.trans hnext), .inl hgone⟩

/-- Sending does not touch what was read, nor the response itself. -/
theorem sendSockBuf_keeps {q : SendResult} (hsock : t.sock? a = some sb) (h : sendSockBuf env sb q now t = .ok (rc, t')) :
    (∃ sb', t'.sock? a = some sb' ∧ sb'.sansResponse = sb.sansResponse ∧ sb'.resSize = sb.resSize ∧
      sb'.resBuf = sb.resBuf) ∧ t'.linesOf a = t.linesOf a ∧ t'.next = t.next := by
  have ha : sb.addr = a := Keyed.key_of_find? (k := SockBuf.addr) hsock
  unfold sendSockBuf at h
  split at h
  · cases h
    exact ⟨⟨sb, hsock, rfl, rfl, rfl⟩, rfl, rfl⟩
  · obtain ⟨ok, t1, h1, h⟩ := of_bind h
    cases h1
    split at h
    · cases h
      exact ⟨⟨sb, hsock, rfl, rfl, rfl⟩, rfl, rfl⟩
    · obtain ⟨_, t2, h2, h⟩ := of_bind h
      obtain ⟨_, t3, h3, h⟩ := of_bind h
      cases h
      obtain ⟨_, t4, h4, h3⟩ := of_bind h3
      rw [ha] at h2 h3
      obtain ⟨hs2, hl2, hn2⟩ := modSock_spec (fun b => b.sendDone_addr now q) h2 hsock
      have hclose : ConnKept a t2 t4 ∧ t4.next = t2.next := by
        refine ⟨preserved h4, ?_⟩
        unfold vmClose whenever at h4
        split at h4 <;> cases h4 <;> rfl
      obtain ⟨hs3, hl3, hn3⟩ := modSock_spec (f := ({ · with resFd := -1 })) (fun _ => rfl) h3 (hclose.1.sock.trans hs2)
      obtain ⟨time, sent, hrest⟩ := sb.sendDone_rest now q
      rw [hrest] at hs3
      exact ⟨⟨_, hs3, rfl, rfl, rfl⟩, hl3.trans (hclose.1.lines.trans hl2), hn3.trans (hclose.2.trans hn2)⟩

/-- **A writable event.** -/
theorem sendConnection_serving (hsock : t.sock? a = some sb) (hlines : Lines t a w r) (hread : sb.Reading p)
    (hidle : (∀ n, env.kevent n = true) → r.flags ≠ .disable →
      sb.Stuck ∨ (pending = false ∧ sb.resSize = 0 ∧ sb.resBuf = []))
    (h : sendConnection env sb io t = .ok (u, t')) : t.next ≤ t'.next ∧ ∃ rc t1,
      sendSockBuf env sb io.send io.now t = .ok (rc, t1) ∧
        (t'.sock? a = none ∨ Serving env a p (pending && rc != 2) t') := by
  have ha : sb.addr = a := Keyed.key_of_find? (k := SockBuf.addr) hsock
  obtain ⟨rc, t1, h1, h⟩ := of_bind h
  obtain ⟨⟨sb1, hs1, heq, hsize, hbuf⟩, hl1, hn1⟩ := sendSockBuf_keeps hsock h1
  have hlines1 := hlines.of_eq hl1
  have haddr : sb1.addr = sb.addr := (congrArg SockBuf.addr heq :)
  have ha1 : sb1.addr = a := haddr.trans ha
  obtain ⟨sb2, t2, h2, h⟩ := of_bind h
  replace h2 := get_bind h2
  obtain ⟨rfl, rfl⟩ := pure_ok.mp h2
  rw [ha, hs1, Option.getD_some] at h
  have hread1 := SockBuf.reading_of_sansResponse heq hread
  split at h
  · next h2 =>
    rw [ha1] at h
    obtain ⟨_, t5, h5, h⟩ := of_bind h
    obtain ⟨hs5, hl5, hn5⟩ := modSock_spec (f := (·.clearSend)) (fun _ => rfl) h5 hs1
    obtain ⟨_, t6, h6, h⟩ := of_bind h
    cases h
    obtain ⟨hs6, hn6, w', r', hl6, -⟩ := setSockBufWaitFlags_lines (hlines1.of_eq hl5) h6
    refine ⟨Nat.le_of_eq (by rw [hn6, hn5, hn1]), rc, _, h1, .inr ?_⟩
    have heq5 : sb1.clearSend.sansResponse = sb1.sansResponse := rfl
    have hread5 : sb1.clearSend.Reading p := SockBuf.reading_of_sansResponse heq5 hread1
    exact .intro (hs6.trans hs5) hl6 hread5 fun _ _ => .inr ⟨by simp [h2], rfl, rfl⟩
  · next h2 =>
    split at h
    · cases h
      refine ⟨Nat.le_of_eq hn1.symm, rc, _, h1, .inr (.intro hs1 hlines1 hread1 fun hk hne => ?_)⟩
      rw [hsize, hbuf]
      refine (hidle hk hne).imp (SockBuf.stuck_of_sansResponse heq) fun hid => ⟨?_, hid.2⟩
      rw [hid.1, Bool.false_and]
    · obtain ⟨hgone, hnext⟩ := dropConnection_gone ha1 h
      exact ⟨Nat.le_of_eq (hn1.symm.trans hnext), rc, _, h1, .inl hgone⟩

/-! ## Other connections -/

theorem setSockBufWaitFlags_other (hw : WF s) (hab : a ≠ b)
    (h : setSockBufWaitFlags env b recvF sendF s = .ok (rc, s')) : ConnKept a s s' := by
  replace h := get_bind h
  split at h
  · cases h
    exact refl_of (ConnKept a) _
  · obtain ⟨ok, s1, h1, h⟩ := of_bind h
    cases h1
    split at h
    · cases h
      exact .of_eq rfl rfl (Nat.le_refl _)
    · obtain ⟨_, s2, h2, h⟩ := of_bind h
      cases h2
      cases h
      refine ⟨rfl, ?_, Nat.le_refl _⟩
      show ((s.eventList.map _).filter _).map _ = _
      simp only [List.filter_map, Function.comp_def, waitFlags_data, List.map_map]
      refine List.map_congr_left fun e he => ?_
      obtain ⟨hmem, hd⟩ := List.mem_filter.mp he
      rcases waitFlags_own hw.owned b recvF sendF hmem with heq | ⟨hd', -⟩
      · rw [heq]
      · rw [hd'] at hd
        simp [Ne.symm hab] at hd

theorem destroySockBuf_other (hab : a ≠ sb.addr) : Keeps (ConnKept a) (destroySockBuf sb) :=
  .bind (.modify fun s => ⟨Keyed.find?_filter_of_ne (k := SockBuf.addr) s.sockList hab, rfl, Nat.le_refl _⟩) fun _ =>
    .bind keeps fun _ => keeps

theorem dropConnection_other (hab : a ≠ sb.addr) : Keeps (ConnKept a) (dropConnection sb) :=
  .bind (stopWaitingFor_conn fun e he => by simp [hasData, he, hab]) fun _ => destroySockBuf_other hab

theorem recvSockBuf_other (hab : a ≠ sb.addr) (q : RecvResult) (now : Int) :
    Keeps (ConnKept a) (recvSockBuf env sb q now) :=
  .bind keeps fun ok => .bind (modSock_other (fun x => x.received_addr ok now q) hab) fun _ => .pure _

theorem sendSockBuf_other (hab : a ≠ sb.addr) (q : SendResult) (now : Int) :
    Keeps (ConnKept a) (sendSockBuf env sb q now) :=
  .ite (fun _ => .pure _) fun _ => .bind keeps fun _ => .ite (fun _ => .pure _) fun _ =>
    .bind (modSock_other (fun x => x.sendDone_addr now q) hab) fun _ =>
      .bind (.bind keeps fun _ => modSock_other (fun _ => rfl) hab) fun _ => .pure _

/-- The connection that was looked up has its address. -/
theorem getSock_addr {t1 : Daemon} (h : getSock sb t = .ok (sb', t1)) : t1 = t ∧ sb'.addr = sb.addr := by
  replace h := get_bind h
  obtain ⟨rfl, rfl⟩ := pure_ok.mp h
  refine ⟨rfl, ?_⟩
  cases hs : t.sock? sb.addr with
  | none => rfl
  | some x => exact Keyed.key_of_find? (k := SockBuf.addr) hs

theorem onRecvSockBuf_other (hw : WF t) (hab : a ≠ b) (h : onRecvSockBuf env b io t = .ok (u, t')) :
    ConnKept a t t' := by
  replace h := get_bind h
  cases hs : t.sock? b with
  | none =>
    simp only [hs] at h
    exact preserved h
  | some sb =>
    simp only [hs] at h
    have hb : sb.addr = b := Keyed.key_of_find? (k := SockBuf.addr) hs
    obtain ⟨rc, t1, h1, h⟩ := of_bind h
    have k1 : ConnKept a t t1 := recvSockBuf_other (hb ▸ hab) _ _ _ _ _ h1
    have hw1 : WF t1 := ((recvSockBuf_apart sb io.recv io.now _ _ _ h1).calm hw).1.wf
    obtain ⟨sb1, t2, h2, hrest⟩ := of_bind h
    obtain ⟨hsame, hb1⟩ := getSock_addr h2
    rw [hsame] at hrest
    have hab1 : a ≠ sb1.addr := by rw [hb1, hb]; exact hab
    refine trans_of (ConnKept a) k1 ?_
    split at hrest
    · obtain ⟨rc2, t3, h3, h⟩ := of_bind hrest
      have k3 : ConnKept a t1 t3 := recvCommand_other hab1 _ _ _ _ h3
      refine trans_of (ConnKept a) k3 ?_
      split at h
      · obtain ⟨_, t4, h4, h⟩ := of_bind h
        have k4 : ConnKept a t3 t4 := modSock_other (f := (·.clear)) (fun _ => rfl) hab1 _ _ _ h4
        obtain ⟨_, t5, h5, h⟩ := of_bind h
        cases h
        have m3 : Moves env True t1 t3 := serves_moves.recvCommand sb1 io.load _ _ _ h3
        have hw4 : WF t4 := ((modSock_apart (f := (·.clear)) (fun _ => rfl) _ _ _ h4).calm (m3 hw1).1.wf).1.wf
        exact trans_of (ConnKept a) k4 (setSockBufWaitFlags_other hw4 hab1 h5)
      · cases h
        exact refl_of (ConnKept a) _
    · split at hrest
      · cases hrest
        exact refl_of (ConnKept a) _
      · exact dropConnection_other hab1 _ _ _ hrest

theorem onSendSockBuf_other (hw : WF t) (hab : a ≠ b) (h : onSendSockBuf env b io t = .ok (u, t')) :
    ConnKept a t t' := by
  replace h := get_bind h
  cases hs : t.sock? b with
  | none =>
    simp only [hs] at h
    exact preserved h
  | some sb =>
    simp only [hs] at h
    have hb : sb.addr = b := Keyed.key_of_find? (k := SockBuf.addr) hs
    obtain ⟨rc, t1, h1, h⟩ := of_bind h
    have k1 : ConnKept a t t1 := sendSockBuf_other (hb ▸ hab) _ _ _ _ _ h1
    have hw1 : WF t1 := ((sendSockBuf_apart _ _ _ _ _ _ h1).calm hw).1.wf
    obtain ⟨sb1, t2, h2, hrest⟩ := of_bind h
    obtain ⟨hsame, hb1⟩ := getSock_addr h2
    rw [hsame] at hrest
    have hab1 : a ≠ sb1.addr := by rw [hb1, hb]; exact hab
    refine trans_of (ConnKept a) k1 ?_
    split at hrest
    · obtain ⟨_, t4, h4, h⟩ := of_bind hrest
      have k4 : ConnKept a t1 t4 := modSock_other (f := (·.clearSend)) (fun _ => rfl) hab1 _ _ _ h4
      obtain ⟨_, t5, h5, h⟩ := of_bind h
      cases h
      have hw4 : WF t4 := ((modSock_apart (f := (·.clearSend)) (fun _ => rfl) _ _ _ h4).calm hw1).1.wf
      exact trans_of (ConnKept a) k4 (setSockBufWaitFlags_other hw4 hab1 h5)
    · split at hrest
      · cases hrest
        exact refl_of (ConnKept a) _
      · exact dropConnection_other hab1 _ _ _ hrest

/-! ## The ends of a connection -/

/-- The connection may have been closed; nothing else happened to it. -/
structure Fading (a : Addr) (s s' : Daemon) : Prop where
  sock : s'.sock? a = s.sock? a ∨ s'.sock? a = none
  lines : s'.linesOf a = s.linesOf a
  next : s.next ≤ s'.next

instance (a : Addr) : IsPreorder Daemon (Fading a) where
  refl _ := ⟨.inl rfl, rfl, Nat.le_refl _⟩
  trans _ _ _ h h' := by
    refine ⟨?_, h'.lines.trans h.lines, Nat.le_trans h.next h'.next⟩
    rcases h'.sock with hs | hs
    · rw [hs]
      exact h.sock
    · exact .inr hs

theorem ConnKept.fading (h : ConnKept a s s') : Fading a s s' := ⟨.inl h.sock, h.lines, h.next⟩

theorem destroySockBuf_fading (sb : SockBuf) : Keeps (Fading a) (destroySockBuf sb) := by
  refine .bind (.modify fun s => ⟨?_, rfl, Nat.le_refl _⟩) fun _ =>
    .bind (keeps.mono fun _ _ => ConnKept.fading) fun _ =>
      keeps.mono fun _ _ => ConnKept.fading
  by_cases hab : a = sb.addr
  · subst hab
    exact .inr (Keyed.find?_filter_self (k := SockBuf.addr) s.sockList sb.addr)
  · exact .inl (Keyed.find?_filter_of_ne (k := SockBuf.addr) s.sockList hab)

theorem closeTimeoutSockBuf_fading (timeout now : Int) : Keeps (Fading a) (closeTimeoutSockBuf timeout now) := by
  refine .bind .get fun s => ?_
  induction s.sockList with
  | nil => exact .pure _
  | cons sb rest ih => exact .bind (whenever_keeps _ (destroySockBuf_fading sb)) fun _ => ih

/-! ## A new connection -/

theorem newFd_next (h : newFd env s = .ok (fd, s')) : s'.next = s.next := by
  cases h
  rfl

theorem createSockBuf_spec {o : Option Addr} (h : createSockBuf env fd now peer s = .ok (o, s')) :
    (o = none ∧ ∀ a, ConnKept a s s') ∨ (o = some s.next ∧ s'.next = s.next + 1 ∧
      s'.sock? s.next = some (mkSockBuf s.next fd now peer) ∧ s'.eventList = s.eventList ∧
        ∀ a, a ≠ s.next → ConnKept a s s') := by
  obtain ⟨ok, s1, h1, h⟩ := of_bind h
  cases h1
  split at h
  · cases h
    exact .inl ⟨rfl, fun a => .of_eq rfl rfl (Nat.le_refl _)⟩
  · obtain ⟨b, s2, h2, h⟩ := of_bind h
    cases h2
    obtain ⟨_, s3, h3, h⟩ := of_bind h
    cases h3
    cases h
    refine .inr ⟨rfl, rfl, ?_, rfl, fun a ha => ⟨?_, rfl, Nat.le_succ _⟩⟩
    · simp [Daemon.sock?, mkSockBuf]
    · have hne : ¬(s.next == a) = true := by simpa using Ne.symm ha
      simp only [Daemon.sock?, List.find?_cons, mkSockBuf, hne]

/-- Both events are registered, the one for writing in front. -/
theorem waitForSockBuf_spec (h : waitForSockBuf env b fd s = .ok (rc, s')) :
    s.next ≤ s'.next ∧ s'.sockList = s.sockList ∧ (rc < 0 ∨ ∃ x y,
      s'.eventList = mkEvent y .event ⟨fd, .write, .add, 0⟩ .onSendSockBuf (.sock b) none ::
        mkEvent x .event ⟨fd, .read, .add, 0⟩ .onRecvSockBuf (.sock b) none :: s.eventList ∧ y ≠ x) := by
  obtain ⟨t, hrest, hev, hnext, ⟨rfl, rfl, -⟩ | ⟨-, h⟩⟩ := registerEvents_cases h
  · exact ⟨by omega, (congrArg Daemon.sockList hrest :), .inl (by decide)⟩
  · obtain ⟨_, s1, h1, h⟩ := of_bind h
    obtain ⟨_, s2, h2, h⟩ := of_bind h
    cases h1
    cases h2
    cases h
    refine ⟨by show s.next ≤ t.next; omega, (congrArg Daemon.sockList hrest :),
      .inr ⟨s.next, s.next + 1, ?_, Nat.succ_ne_self _⟩⟩
    show _ :: _ :: t.eventList = _
    rw [hev]

theorem acceptConnection_other (ha : a ≠ s.next)
    (h : acceptConnection env now peer s = .ok (u, s')) : ConnKept a s s' := by
  obtain ⟨fd, s1, h1, h⟩ := of_bind h
  have k1 : ConnKept a s s1 := preserved h1
  have hn1 := newFd_next h1
  obtain ⟨o, s2, h2, h⟩ := of_bind h
  refine trans_of (ConnKept a) k1 ?_
  rcases createSockBuf_spec h2 with ⟨rfl, k2⟩ | ⟨rfl, -, -, -, k2⟩
  · exact trans_of (ConnKept a) (k2 a) (preserved h)
  · have ha1 : a ≠ s1.next := hn1 ▸ ha
    refine trans_of (ConnKept a) (k2 a ha1) ?_
    obtain ⟨rc, s3, h3, h⟩ := of_bind h
    have k3 : ConnKept a s2 s3 := by
      refine registerEvents_conn (fun x hx => ?_) _ _ _ h3
      rcases List.mem_cons.mp hx with rfl | hx
      · simpa using Ne.symm ha1
      · rw [List.mem_singleton.mp hx]
        simpa using Ne.symm ha1
    refine trans_of (ConnKept a) k3 ?_
    split at h
    · exact destroySockBuf_other (by show a ≠ s1.next; exact ha1) _ _ _ h
    · cases h
      exact refl_of (ConnKept a) _

/-- **A new connection** waits for both events and has read nothing. -/
theorem acceptConnection_serving (hl : s.linesOf s.next = [])
    (h : acceptConnection env now peer s = .ok (u, s')) :
    s.next ≤ s'.next ∧ (s'.sock? s.next = s.sock? s.next ∧ s'.linesOf s.next = [] ∨
      s.next < s'.next ∧ (s'.sock? s.next = none ∨ Serving env s.next [] false s')) := by
  obtain ⟨fd, s1, h1, h⟩ := of_bind h
  have k1 : ConnKept s.next s s1 := preserved h1
  have hn1 := newFd_next h1
  rw [← hn1] at k1 ⊢
  obtain ⟨o, s2, h2, h⟩ := of_bind h
  rcases createSockBuf_spec h2 with ⟨rfl, k2⟩ | ⟨rfl, hn2, hs2, hev2, -⟩
  · have k : ConnKept s1.next s s' :=
      trans_of (ConnKept s1.next) k1 (trans_of (ConnKept s1.next) (k2 _) (preserved h))
    refine ⟨hn1 ▸ k.next, .inl ⟨k.sock, ?_⟩⟩
    rw [k.lines, hn1]
    exact hl
  · obtain ⟨rc, s3, h3, h⟩ := of_bind h
    obtain ⟨hn3, hs3, hreg⟩ := waitForSockBuf_spec h3
    split at h
    · have k := destroySockBuf_fading (a := s1.next) _ _ _ _ h
      have hnext := k.next
      refine ⟨by omega, .inr ⟨by omega, .inl ?_⟩⟩
      obtain ⟨_, s4, h4, h⟩ := of_bind h
      have hs4 : s4.sock? s1.next = none := by
        rw [of_modify h4]
        exact Keyed.find?_filter_self (k := SockBuf.addr) _ _
      obtain ⟨_, s5, h5, h⟩ := of_bind h
      rw [vmClose_sock? h, of_modify h5]
      exact hs4
    · next hok =>
      cases h
      obtain ⟨x, y, hev, hne⟩ := hreg.resolve_left hok
      refine ⟨by omega, .inr ⟨by omega, .inr ?_⟩⟩
      have hl3 : s'.linesOf s1.next = [mkEvent y .event ⟨fd, .write, .add, 0⟩ .onSendSockBuf (.sock s1.next) none,
          mkEvent x .event ⟨fd, .read, .add, 0⟩ .onRecvSockBuf (.sock s1.next) none] := by
        have hold : (s2.eventList.filter (·.data == .sock s1.next)).map
            (fun e : Event => ({ e with armed := true } : Event)) = [] := by
          rw [hev2]
          exact k1.lines.trans (hn1 ▸ hl)
        rw [Daemon.linesOf, hev, List.filter_cons_of_pos (by simp [mkEvent]), List.filter_cons_of_pos (by simp [mkEvent]),
          List.map_cons, List.map_cons, hold]
        rfl
      have hsock : s'.sock? s1.next = some (mkSockBuf s1.next fd now peer) := by
        rw [Daemon.sock?, hs3]
        exact hs2
      refine .intro hsock ⟨hl3, rfl, rfl, hne⟩ ?_ fun _ _ => .inr ⟨rfl, rfl, rfl⟩
      have hR : (mkSockBuf s1.next fd now peer).Reading ((mkSockBuf s1.next fd now peer).size.take
          (mkSockBuf s1.next fd now peer).readSize) := .size rfl rfl (Nat.succ_pos 3) rfl
      exact hR

/-! ## Steps -/

/-- **What a step does to a connection.** -/
inductive ConnStep (env : Env) (a : Addr) (s s' : Daemon) : Input → Prop where
  | kept {i : Input} (hk : ConnKept a s s') (hno : ∀ x io e, i = .event x io → s.event? x = some e → e.data ≠ .sock a) :
      ConnStep env a s s' i
  | faded {i : Input} (hf : Fading a s s') (hno : ∀ x io, i ≠ .event x io) : ConnStep env a s s' i
  | opened {x : Addr} {io : Io} {e : Event} (ha : a = s.next) (he : s.event? x = some e) (hd : e.data ≠ .sock a)
      (h : s.linesOf a = [] → s.next ≤ s'.next ∧ (s'.sock? a = s.sock? a ∧ s'.linesOf a = [] ∨
        a < s'.next ∧ (s'.sock? a = none ∨ Serving env a [] false s'))) : ConnStep env a s s' (.event x io)
  | recv {x : Addr} {io : Io} {e : Event} {t : Daemon} (he : s.event? x = some e) (hcb : e.cb = .onRecvSockBuf)
      (hd : e.data = .sock a) (hfl : e.flags ≠ .disable) (hk : ConnKept a s t) (htick : t.tick = s.tick)
      (h : onRecvSockBuf env a io t = .ok ((), s')) : ConnStep env a s s' (.event x io)
  | send {x : Addr} {io : Io} {e : Event} {t : Daemon} (he : s.event? x = some e) (hcb : e.cb = .onSendSockBuf)
      (hd : e.data = .sock a) (hk : ConnKept a s t) (htick : t.tick = s.tick)
      (h : onSendSockBuf env a io t = .ok ((), s')) : ConnStep env a s s' (.event x io)

theorem delivered_conn (e : Event) : ConnKept a s (s.delivered e) := by
  refine ⟨rfl, ?_, Nat.le_refl _⟩
  refine linesOf_map (fun x => ?_) (fun x _ => ?_) s.eventList <;> split <;> rfl

theorem releaseEvent_conn (hno : ∀ y ∈ s.eventList, y.addr = x → y.data ≠ .sock a)
    (h : releaseEvent x s = .ok (u, s')) : ConnKept a s s' := by
  rw [of_modify h]
  split
  · refine ⟨rfl, ?_, Nat.le_refl _⟩
    simp only [Daemon.linesOf, List.filter_filter]
    congr 1
    refine List.filter_congr fun y hy => ?_
    by_cases hd : y.data = .sock a
    · have hne : y.addr ≠ x := fun hx => hno y hy hx hd
      simp [hne]
    · simp [hd]
  · exact .of_eq rfl rfl (Nat.le_refl _)

theorem onAcceptCmdSock_cases (h : onAcceptCmdSock env io t = .ok (u, t')) :
    t' = t ∨ ∃ peer, acceptConnection env io.now peer t = .ok (u, t') := by
  cases hacc : io.accept with
  | none =>
    simp only [onAcceptCmdSock, hacc] at h
    cases h
    exact .inl rfl
  | some peer =>
    simp only [onAcceptCmdSock, hacc] at h
    exact .inr ⟨peer, h⟩

/-- The callback of an event that is not of the connection. -/
theorem callback_conn (hw : WF t) (hwf : e.wf) (hd : e.data ≠ .sock a)
    (hacc : e.cb = .onAcceptCmdSock → a ≠ t.next) (h : callback env e io t = .ok (u, t')) : ConnKept a t t' := by
  cases hcb : e.cb <;> simp only [Event.wf, hcb] at hwf
  case onTimer | onVmExit | onReadVmOutput =>
    obtain ⟨-, -, -, b, hdb⟩ := hwf
    simp only [callback, hcb, hdb] at h
    exact preserved h
  case onRecvSockBuf =>
    obtain ⟨-, -, -, b, hdb⟩ := hwf
    simp only [callback, hcb, hdb] at h
    exact onRecvSockBuf_other hw (fun hab => hd (by rw [hdb, hab])) h
  case onSendSockBuf =>
    obtain ⟨-, -, -, b, hdb⟩ := hwf
    simp only [callback, hcb, hdb] at h
    exact onSendSockBuf_other hw (fun hab => hd (by rw [hdb, hab])) h
  case onAcceptCmdSock =>
    simp only [callback, hcb] at h
    rcases onAcceptCmdSock_cases h with rfl | ⟨peer, h⟩
    · exact refl_of (ConnKept a) _
    · exact acceptConnection_other (hacc hcb) h
  case onSigterm =>
    simp only [callback, hcb] at h
    rw [of_modify h]
    exact .of_eq rfl rfl (Nat.le_refl _)
  case onSighup =>
    simp only [callback, hcb] at h
    exact preserved h
  case plugin =>
    simp only [callback, hcb] at h
    cases h
    exact refl_of (ConnKept a) _

/-- After the callback the dispatcher releases a one-shot event, which is not of a connection. -/
theorem released_conn (hw : WF s) (he : e ∈ s.eventList) (hd : e.data ≠ .sock a)
    (hk : ConnKept a s t) (h : whenever e.oneshot (releaseEvent e.addr) t = .ok (u, s')) : ConnKept a s s' := by
  refine trans_of (ConnKept a) hk ?_
  unfold whenever at h
  split at h
  · refine releaseEvent_conn (fun y hy haddr hdy => ?_) h
    have hmem : ({ y with armed := true } : Event) ∈ s.linesOf a := by
      rw [← hk.lines]
      exact mem_linesOf hy hdy
    obtain ⟨z, hz, hzy⟩ := List.mem_map.mp hmem
    obtain ⟨hzmem, hzd⟩ := List.mem_filter.mp hz
    have hza : z.addr = y.addr := (congrArg Event.addr hzy :)
    rw [hw.event_unique he hzmem (hza.trans haddr)] at hzd
    exact hd (eq_of_beq hzd)
  · cases h
    exact refl_of (ConnKept a) _

/-- The events of connections and their callbacks. -/
theorem WF.sock_event (hw : WF s) (he : e ∈ s.eventList) (hd : e.data = .sock a) :
    e.oneshot = false ∧ (e.cb = .onRecvSockBuf ∨ e.cb = .onSendSockBuf) := by
  have hwf := hw.events e he
  unfold Event.wf at hwf
  cases hcb : e.cb <;> simp only [hcb, hd] at hwf
  case onRecvSockBuf => exact ⟨by simpa [Event.oneshot] using hwf.2.1, .inl rfl⟩
  case onSendSockBuf => exact ⟨by simpa [Event.oneshot] using hwf.2.1, .inr rfl⟩
  all_goals simp_all

theorem dispatch_conn {ph : Phase} (hw : WF s) (he : s.event? x = some e)
    (hdel : s.deliverable e = true) (h : dispatch env e io { s with phase := ph } = .ok (u, s')) :
    ConnStep env a s s' (.event x io) := by
  have hmem := mem_of_event? he
  obtain ⟨_, s1, h1, h⟩ := of_bind h
  have hs1 := deliver_ok h1
  obtain ⟨_, t, h2, hrel⟩ := of_bind h
  have hw0 : WF { s with phase := ph } := ((setPhase_confSide s ph).calm hw).1.wf
  have hw1 : WF s1 := by rw [hs1]; exact delivered_wf hw0
  have k1 : ConnKept a s s1 := by
    rw [hs1]
    have k0 : ConnKept a s { s with phase := ph } := .of_eq rfl rfl (Nat.le_refl _)
    exact trans_of (ConnKept a) k0 (delivered_conn e)
  have htick : s1.tick = s.tick := by rw [hs1]; rfl
  have hnext : s1.next = s.next := by rw [hs1]; rfl
  by_cases hd : e.data = .sock a
  · obtain ⟨ho, hcb⟩ := hw.sock_event hmem hd
    have hst : s' = t := by
      simp only [whenever, ho] at hrel
      cases hrel
      rfl
    rw [hst]
    have hfl : e.flags ≠ .disable := by
      simp only [Daemon.deliverable, Bool.and_eq_true, bne_iff_ne] at hdel
      exact hdel.1.2
    rcases hcb with hcb | hcb
    · simp only [callback, hcb, hd] at h2
      exact .recv he hcb hd hfl k1 htick h2
    · simp only [callback, hcb, hd] at h2
      exact .send he hcb hd k1 htick h2
  · by_cases hnew : e.cb = .onAcceptCmdSock ∧ a = s.next
    · obtain ⟨hcb, ha⟩ := hnew
      refine .opened ha he hd fun hl => ?_
      have ho : e.oneshot = false := by
        have hwf := hw.events e hmem
        simp only [Event.wf, hcb] at hwf
        simp [Event.oneshot, hwf.2.1]
      have hst : s' = t := by
        simp only [whenever, ho] at hrel
        cases hrel
        rfl
      rw [hst]
      have h2 : onAcceptCmdSock env io s1 = .ok ((), t) := by
        simp only [callback, hcb] at h2
        exact h2
      rcases onAcceptCmdSock_cases h2 with rfl | ⟨peer, h2⟩
      · exact ⟨k1.next, .inl ⟨k1.sock, k1.lines.trans hl⟩⟩
      · have hl1 : s1.linesOf s1.next = [] := by
          rw [hnext, ← ha, k1.lines]
          exact hl
        have hacc := acceptConnection_serving hl1 h2
        rw [hnext, ← ha, k1.sock] at hacc
        rw [← ha]
        exact hacc
    · have k2 : ConnKept a s1 t := by
        refine callback_conn hw1 (hw.events e hmem) hd (fun hcb ha => hnew ⟨hcb, ?_⟩) h2
        rw [ha, hnext]
      refine .kept (released_conn hw hmem hd (trans_of (ConnKept a) k1 k2) hrel) fun x' io' e' hi he' => ?_
      cases hi
      rw [he] at he'
      cases he'
      exact hd

theorem step_conn {i : Input} (hw : WF s) (h : step env s i = some s') : ConnStep env a s s' i := by
  cases step_taken h with
  | procExit | keventError => exact .kept (.of_eq rfl rfl (Nat.le_refl _)) fun _ _ _ hi => Input.noConfusion hi
  | event hx hwait hdel h => exact dispatch_conn hw hx hdel h
  | timeout h => exact .faded (closeTimeoutSockBuf_fading _ _ _ _ _ h) fun _ _ hi => Input.noConfusion hi
  | pluginEvent h | stopVirtualMachines h => exact .kept (preserved h) fun _ _ _ hi => Input.noConfusion hi

end Bmd
