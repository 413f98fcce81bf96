import Bmd.Correctness.Dialogue

/-!
# `Correctness.Reassembly` — the requests of a connection over a whole run

A transcript records what the client's stream was cut into: the bytes that `recv` returned, the bodies that were
passed to `recv_command`, and whether a response is still to be discarded. The daemon is run with the transcript of
one connection; along every run the connection is not there yet, or it is `Serving` and the transcript is a stream
of the bodies followed by the beginning of a frame, or it is closed.
-/

namespace Bmd

open Lib Lib.Prog

variable {s s' t t' : Daemon} {a : Addr} {env : Env} {sb : SockBuf} {rc : Int} {p : List UInt8} {i : Input}
  {r : RecvResult} {io : Io} {x : Addr}

/-! ## The transcript -/

/-- What a connection has gone through. -/
structure Transcript where
  /-- The bytes that `recv` returned. -/
  bytes : List UInt8
  /-- The bodies passed to `recv_command`. -/
  bodies : List (List UInt8)
  /-- A body was passed and `clear_send_sock_buf` was not called since. -/
  pending : Bool
  deriving DecidableEq

def Transcript.start : Transcript := { bytes := [], bodies := [], pending := false }

/-- `on_recv_sock_buf` was called and `recv` returned `r`. -/
def Transcript.recv (tr : Transcript) (sb : SockBuf) (r : RecvResult) : Transcript where
  bytes := tr.bytes ++ sb.consumes r
  bodies := tr.bodies ++ sb.hands r
  pending := tr.pending || !(sb.hands r).isEmpty

/-- `on_send_sock_buf` was called and `send_sock_buf` returned `rc`; on 2 the response is discarded. -/
def Transcript.send (tr : Transcript) (rc : Int) : Transcript := { tr with pending := tr.pending && rc != 2 }

/-- The return value of `send_sock_buf`; `ok` is the answer of `calloc`. -/
def SockBuf.sendResult (sb : SockBuf) (ok : Bool) (r : SendResult) (now : Int) : Int :=
  if sb.resSize = 0 ∨ sb.sentSize = sb.resSize + 4 then 2
  else if sb.resFd ≠ -1 ∧ !ok then -1
  else (sb.sendDone now r).2

theorem sendSockBuf_result {r : SendResult} {now : Int} (h : sendSockBuf env sb r now s = .ok (rc, s')) :
    rc = sb.sendResult (env.malloc s.tick) r now := by
  unfold sendSockBuf at h
  unfold SockBuf.sendResult
  split at h
  · next hnone =>
    rw [if_pos hnone]
    exact (pure_ok.mp h).1.symm
  · next hsome =>
    obtain ⟨ok, s1, h1, h⟩ := of_bind h
    cases h1
    rw [if_neg hsome]
    split at h
    · next hfail =>
      rw [if_pos hfail]
      exact (pure_ok.mp h).1.symm
    · next hmem =>
      obtain ⟨_, s2, -, h⟩ := of_bind h
      obtain ⟨_, s3, -, h⟩ := of_bind h
      rw [if_neg hmem]
      exact (pure_ok.mp h).1.symm

/-- The transcript of the connection at `a` after an input; only the events of the connection add to it. -/
def Transcript.after (env : Env) (a : Addr) (tr : Transcript) (s : Daemon) : Input → Transcript
  | .event x io =>
    match s.event? x, s.sock? a with
    | some e, some sb =>
      if e.data = .sock a then
        if e.cb = .onRecvSockBuf then tr.recv sb io.recv else tr.send (sb.sendResult (env.malloc s.tick) io.send io.now)
      else tr
    | _, _ => tr
  | _ => tr

/-- The daemon with the transcript of the connection at `a`. -/
def bmdWith (env : Env) (a : Addr) : System (Daemon × Transcript) Input :=
  (bmd env).recorded .start (Transcript.after env a)

variable {tr : Transcript} {e : Event} {u : Unit}

theorem Transcript.after_of_ne
    (h : ∀ x io e, i = .event x io → s.event? x = some e → e.data ≠ .sock a) : tr.after env a s i = tr := by
  unfold after
  split
  · next x io =>
    split
    · next e sb he _ => rw [if_neg (h x io e rfl he)]
    · rfl
  · rfl

theorem Transcript.after_recv (he : s.event? x = some e)
    (hs : s.sock? a = some sb) (hd : e.data = .sock a) (hcb : e.cb = .onRecvSockBuf) :
    tr.after env a s (.event x io) = tr.recv sb io.recv := by
  simp only [after, he, hs, hd, hcb, if_true]

theorem Transcript.after_send (he : s.event? x = some e)
    (hs : s.sock? a = some sb) (hd : e.data = .sock a) (hcb : e.cb = .onSendSockBuf) :
    tr.after env a s (.event x io) = tr.send (sb.sendResult (env.malloc s.tick) io.send io.now) := by
  have hne : ¬Callback.onSendSockBuf = .onRecvSockBuf := by decide
  simp only [after, he, hs, hd, hcb, if_true, if_neg hne]

/-! ## Starting -/

/-- There is no connection when the daemon first waits. -/
theorem boot_conn {load : List LoadedConf} {off : Int} (h : boot env load off = some s) :
    s.sock? a = none ∧ s.linesOf a = [] := by
  obtain ⟨u, h⟩ := exec_some h
  have k : ConnKept a (.empty off) s := preserved h
  exact ⟨k.sock, k.lines⟩

/-! ## The invariant of a run -/

/-- The transcript is cut into the frames of its bodies, up to what is not a whole frame. -/
structure Transcript.Cut (tr : Transcript) (p : List UInt8) : Prop where
  bytes : tr.bytes = Framing.stream htonl tr.bodies ++ p
  sizes : ∀ body ∈ tr.bodies, validSize body.length

/-- **The stages of a connection**, with its transcript. -/
inductive Told (env : Env) (a : Addr) (s : Daemon) (tr : Transcript) : Prop where
  | fresh (hnext : s.next ≤ a) (hsock : s.sock? a = none) (hlines : s.linesOf a = []) (htr : tr = .start)
  | serving {p : List UInt8} (hnext : a < s.next) (hserv : Serving env a p tr.pending s) (hcut : tr.Cut p)
  | closed (hnext : a < s.next) (hsock : s.sock? a = none)

theorem Told.of_none (hsock : s.sock? a = none) (hlines : s.linesOf a = []) (htr : tr = .start) : Told env a s tr := by
  rcases Nat.lt_or_ge a s.next with hlt | hge
  · exact .closed hlt hsock
  · exact .fresh hge hsock hlines htr

theorem Transcript.Cut.more (h : tr.Cut p) (hno : sb.hands r = []) : (tr.recv sb r).Cut (p ++ sb.consumes r) := by
  refine ⟨?_, fun body hb => h.sizes body ?_⟩
  · show tr.bytes ++ _ = Framing.stream htonl (tr.bodies ++ sb.hands r) ++ _
    rw [hno, List.append_nil, h.bytes, List.append_assoc]
  · have hb : body ∈ tr.bodies ++ sb.hands r := hb
    rwa [hno, List.append_nil] at hb

theorem Transcript.Cut.whole {body : List UInt8} (h : tr.Cut p)
    (hh : sb.hands r = [body]) (hv : validSize body.length)
    (hp : p ++ sb.consumes r = Framing.frame htonl body) : (tr.recv sb r).Cut [] := by
  refine ⟨?_, fun b hb => ?_⟩
  · show tr.bytes ++ _ = Framing.stream htonl (tr.bodies ++ sb.hands r) ++ _
    rw [hh, Framing.stream_append, Framing.stream_singleton, List.append_nil, h.bytes, List.append_assoc, hp]
  · have hb : b ∈ tr.bodies ++ sb.hands r := hb
    rw [hh] at hb
    rcases List.mem_append.mp hb with hb | hb
    · exact h.sizes b hb
    · rw [List.mem_singleton.mp hb]
      exact hv

/-- The read event of an open connection is the one that calls `on_recv_sock_buf`. -/
theorem Lines.readable {w r : Event} (hw : WF s) (hl : Lines s a w r) (he : s.event? x = some e)
    (hd : e.data = .sock a) (hcb : e.cb = .onRecvSockBuf) : r.flags = e.flags := by
  have hmem := mem_of_event? he
  have hwf := hw.events e hmem
  simp only [Event.wf, hcb] at hwf
  rcases hl.mem hmem hd with hew | her
  · -- it is not the write event
    have hf : w.filter = e.filter := (congrArg Event.filter hew :).symm
    rw [hl.write, hwf.1] at hf
    cases hf
  · exact (congrArg Event.flags her :).symm

/-- An event is dispatched when its filter is not disabled. -/
theorem deliverable_of_step (he : s.event? x = some e)
    (h : step env s (.event x io) = some s') : e.flags ≠ .disable := by
  cases step_taken h with
  | event hx _ hdel _ =>
    obtain rfl := Option.some.inj (he.symm.trans hx)
    simp only [Daemon.deliverable, Bool.and_eq_true, bne_iff_ne] at hdel
    exact hdel.1.2

/-- A closed connection stays closed. -/
theorem onRecvSockBuf_none (hs : t.sock? a = none) (h : onRecvSockBuf env a io t = .ok (u, t')) :
    t'.sock? a = none ∧ t.next ≤ t'.next := by
  replace h := get_bind h
  simp only [hs] at h
  have k : ConnKept a t t' := preserved h
  exact ⟨k.sock.trans hs, k.next⟩

theorem onSendSockBuf_none (hs : t.sock? a = none) (h : onSendSockBuf env a io t = .ok (u, t')) :
    t'.sock? a = none ∧ t.next ≤ t'.next := by
  replace h := get_bind h
  simp only [hs] at h
  have k : ConnKept a t t' := preserved h
  exact ⟨k.sock.trans hs, k.next⟩

/-- **One step**, with all that it adds to the transcript. -/
theorem Told.step (hw : WF s) (ht : Told env a s tr) (h : step env s i = some s') :
    Told env a s' (tr.after env a s i) := by
  cases step_conn (a := a) hw h with
  | kept hk hno =>
    rw [Transcript.after_of_ne hno]
    cases ht with
    | fresh _ hsock hlines htr => exact .of_none (hk.sock.trans hsock) (hk.lines.trans hlines) htr
    | serving hnext hserv hcut => exact .serving (Nat.lt_of_lt_of_le hnext hk.next) (hserv.kept hk) hcut
    | closed hnext hsock => exact .closed (Nat.lt_of_lt_of_le hnext hk.next) (hk.sock.trans hsock)
  | faded hf hno =>
    rw [Transcript.after_of_ne fun x io _ hi => (hno x io hi).elim]
    have hgone : s.sock? a = none → s'.sock? a = none := fun hsock => hf.sock.elim (·.trans hsock) id
    cases ht with
    | fresh _ hsock hlines htr => exact .of_none (hgone hsock) (hf.lines.trans hlines) htr
    | serving hnext hserv hcut =>
      have hnext' := Nat.lt_of_lt_of_le hnext hf.next
      rcases hf.sock with hsame | hnone
      · exact .serving hnext' (hserv.kept ⟨hsame, hf.lines, hf.next⟩) hcut
      · exact .closed hnext' hnone
    | closed hnext hsock => exact .closed (Nat.lt_of_lt_of_le hnext hf.next) (hgone hsock)
  | opened ha he hd hopen =>
    rw [Transcript.after_of_ne fun x io e hi he' => by cases hi; rw [he] at he'; cases he'; exact hd]
    cases ht with
    | fresh _ hsock hlines htr =>
      obtain ⟨-, ⟨hsock', hlines'⟩ | ⟨hnext', hnone | hserv⟩⟩ := hopen hlines
      · exact .of_none (hsock'.trans hsock) hlines' htr
      · exact .closed hnext' hnone
      · subst htr
        exact .serving hnext' hserv ⟨rfl, nofun⟩
    -- the address is new
    | serving hnext => exact absurd ha (Nat.ne_of_lt hnext)
    | closed hnext => exact absurd ha (Nat.ne_of_lt hnext)
  | recv he hcb hd hfl hk _ hrun =>
    cases ht with
    | fresh _ _ hlines =>
      have hmem := mem_linesOf (mem_of_event? he) hd
      rw [hlines] at hmem
      cases hmem
    | serving hnext hserv hcut =>
      cases hserv with
      | intro hsock hlines hread hidle =>
        have hflags := hlines.readable hw he hd hcb
        replace hrun := get_bind hrun
        have hsock' := hk.sock.trans hsock
        simp only [hsock'] at hrun
        obtain ⟨hn, hcases⟩ := recvConnection_serving hsock' (hlines.of_eq hk.lines) hread
          (fun hkev => hidle hkev (hflags ▸ hfl)) hrun
        have hnext' : a < s'.next := Nat.lt_of_lt_of_le hnext (Nat.le_trans hk.next hn)
        rw [Transcript.after_recv he hsock hd hcb]
        rcases hcases with hnone | ⟨hh, hserv⟩ | ⟨body, hh, hv, hp, -, hserv⟩
        · exact .closed hnext' hnone
        · refine .serving hnext' ?_ (hcut.more hh)
          simpa [Transcript.recv, hh] using hserv
        · refine .serving hnext' ?_ (hcut.whole hh hv hp)
          simpa [Transcript.recv, hh] using hserv
    | closed hnext hsock =>
      obtain ⟨hnone, hn⟩ := onRecvSockBuf_none (hk.sock.trans hsock) hrun
      exact .closed (Nat.lt_of_lt_of_le hnext (Nat.le_trans hk.next hn)) hnone
  | send he hcb hd hk htick hrun =>
    cases ht with
    | fresh _ _ hlines =>
      have hmem := mem_linesOf (mem_of_event? he) hd
      rw [hlines] at hmem
      cases hmem
    | serving hnext hserv hcut =>
      cases hserv with
      | intro hsock hlines hread hidle =>
        replace hrun := get_bind hrun
        have hsock' := hk.sock.trans hsock
        simp only [hsock'] at hrun
        obtain ⟨hn, rc, t2, hsend, hcases⟩ :=
          sendConnection_serving hsock' (hlines.of_eq hk.lines) hread hidle hrun
        have hnext' : a < s'.next := Nat.lt_of_lt_of_le hnext (Nat.le_trans hk.next hn)
        rw [Transcript.after_send he hsock hd hcb, ← htick, ← sendSockBuf_result hsend]
        rcases hcases with hnone | hserv
        · exact .closed hnext' hnone
        · exact .serving hnext' hserv ⟨hcut.bytes, hcut.sizes⟩
    | closed hnext hsock =>
      obtain ⟨hnone, hn⟩ := onSendSockBuf_none (hk.sock.trans hsock) hrun
      exact .closed (Nat.lt_of_lt_of_le hnext (Nat.le_trans hk.next hn)) hnone

/-- **Every run.** -/
theorem reach_told {x : Daemon × Transcript} (h : Reach (bmdWith env a) anyStep x) : Told env a x.1 x.2 := by
  refine Reach.invariant (I := fun x => Told env a x.1 x.2) ?_ ?_ h
  · rintro ⟨s, tr⟩ ⟨⟨load, off, hb⟩, htr⟩
    obtain ⟨hsock, hlines⟩ := boot_conn (a := a) hb
    exact .of_none hsock hlines htr
  · rintro ⟨s, tr⟩ i ⟨s', tr'⟩ hr ht - ⟨hs, htr⟩
    have hw : WF s := (reach_wf hr.of_recorded).1
    rw [show tr' = tr.after env a s i from htr]
    exact ht.step hw hs

/-- An input that hands over a body is a readable event of the connection. -/
theorem Transcript.after_bodies (h : (tr.after env a s i).bodies ≠ tr.bodies) :
    ∃ x io e sb, i = .event x io ∧ s.event? x = some e ∧ s.sock? a = some sb ∧ e.data = .sock a ∧
      e.cb = .onRecvSockBuf ∧ sb.hands io.recv ≠ [] := by
  unfold after at h
  split at h
  · next x io =>
    split at h
    · next e sb he hs =>
      split at h
      · next hd =>
        split at h
        · next hcb =>
          refine ⟨x, io, e, sb, rfl, he, hs, hd, hcb, fun hno => h ?_⟩
          show tr.bodies ++ sb.hands io.recv = tr.bodies
          rw [hno, List.append_nil]
        · exact (h rfl).elim
      · exact (h rfl).elim
    · exact (h rfl).elim
  · exact (h rfl).elim

/-- Nothing is handed over by a connection whose buffer is full. -/
theorem SockBuf.hands_of_stuck (h : sb.Stuck) : sb.hands r = [] := by
  have hR : sb.Reading [] := .stuck h
  refine hands_of_ne true 0 fun hrc => ?_
  have hrec := hR.received true 0 r
  rw [hrc] at hrec
  cases hrec with
  | whole _ _ _ _ hns => exact hns h
  | failed _ hne => exact hne rfl

/-- A request is handed over only when the response to the one before it was discarded. -/
theorem Told.handed_idle (hw : WF s) (ht : Told env a s tr) (hopen : (s.sock? a).isSome)
    (hk : ∀ n, env.kevent n = true) (h : Bmd.step env s i = some s') (hne : (tr.after env a s i).bodies ≠ tr.bodies) :
    tr.pending = false ∧ ∃ sb, s.sock? a = some sb ∧ sb.resBuf = [] ∧ sb.resSize = 0 := by
  obtain ⟨x, io, e, sb, rfl, he, hs, hd, hcb, hhands⟩ := Transcript.after_bodies hne
  cases ht with
  | fresh _ hsock | closed _ hsock => rw [hsock] at hopen; cases hopen
  | serving _ hserv =>
    cases hserv with
    | intro hsock hlines hread hidle =>
      rw [hs] at hsock
      cases hsock
      have hfl : e.flags ≠ .disable := deliverable_of_step he h
      rcases hidle hk (hlines.readable hw he hd hcb ▸ hfl) with hst | ⟨hp, hsize, hbuf⟩
      · exact (hhands (SockBuf.hands_of_stuck hst)).elim
      · exact ⟨hp, sb, hs, hbuf, hsize⟩

/-- **Requests are reassembled and take turns with responses.** For every stream of frames, however `recv` cuts it and
    in whatever order the events of the daemon come, the bodies passed to `recv_command` are the first bodies of the
    stream, up to a frame that has not arrived as a whole; and when the flags of the connection's filters can be
    changed, a body is passed only if no response is pending. -/
theorem requests_reassembled {tr : Transcript} (h : Reach (bmdWith env a) anyStep (s, tr)) (hopen : (s.sock? a).isSome)
    (fs : List (List UInt8)) (hfs : ∀ f ∈ fs, validSize f.length) (hstream : tr.bytes <+: Framing.stream htonl fs) :
    (∃ rest p, fs = tr.bodies ++ rest ∧ tr.bytes = Framing.stream htonl tr.bodies ++ p ∧
      (p = [] ∨ ∃ f rest', rest = f :: rest' ∧ p <+: Framing.frame htonl f ∧ p ≠ Framing.frame htonl f)) ∧
    ((∀ n, env.kevent n = true) → ∀ i s', step env s i = some s' → (tr.after env a s i).bodies ≠ tr.bodies →
      tr.pending = false ∧ ∃ sb, s.sock? a = some sb ∧ sb.resBuf = [] ∧ sb.resSize = 0) := by
  have hw : WF s := (reach_wf h.of_recorded).1
  have ht : Told env a s tr := reach_told h
  refine ⟨?_, fun hk i s' hs hne => ht.handed_idle hw hopen hk hs hne⟩
  cases ht with
  | fresh _ hsock | closed _ hsock => rw [hsock] at hopen; cases hopen
  | serving _ hserv hcut =>
    cases hserv with
    | intro _ _ hread _ =>
      rw [hcut.bytes] at hstream
      obtain ⟨rest, hrest, hp⟩ := htonl_coded_valid.cut hcut.sizes hfs hread.incomplete hstream
      exact ⟨rest, _, hrest, hcut.bytes, hp⟩

/-- What a list of inputs leads to, with the transcript. -/
theorem exists_told {P : Daemon × Transcript → Bool} (load : List LoadedConf) (l : List Input)
    (h : (boot env load 0).any (fun s => (follow (fun (x : Daemon × Transcript) i =>
      (step env x.1 i).map fun s' => (s', x.2.after env a x.1 i)) (fun _ _ => true) (s, .start) l).any P) = true) :
    ∃ x, Reach (bmdWith env a) anyStep x ∧ P x = true := by
  obtain ⟨s, hb, h⟩ := (Option.any_eq_true _ _).mp h
  obtain ⟨x, hx, hP⟩ := (Option.any_eq_true _ _).mp h
  refine ⟨x, .steps (.init ⟨⟨load, 0, hb⟩, rfl⟩) (Steps.follow (fun y i y' hy => ?_) (fun _ _ _ => trivial) hx), hP⟩
  obtain ⟨s', hs, rfl⟩ := Option.map_eq_some_iff.mp hy
  exact ⟨hs, rfl⟩

/-- The header of the first request comes in two pieces, and the header of the second one after the response. -/
theorem requests_reassembled_pieces : ∃ s s' tr, Reach (bmdWith .ideal 11) anyStep (s, tr) ∧
    tr.bytes = [0, 0, 0, 1, 1, 0, 0, 0, 1] ∧ step .ideal s (.event 12 { recv := .data [2] }) = some s' ∧
      (tr.after .ideal 11 s (.event 12 { recv := .data [2] })).bodies = [[1], [2]] ∧
        (∃ rest, [[1], [2]] = tr.bodies ++ rest) ∧ tr.pending = false := by
  obtain ⟨⟨s, tr⟩, hr, h⟩ : ∃ x, Reach (bmdWith .ideal 11) anyStep x ∧
      (x.2.bytes == [0, 0, 0, 1, 1, 0, 0, 0, 1] && x.2.bodies == [[1]] && (x.1.sock? 11).isSome &&
        (step .ideal x.1 (.event 12 { recv := .data [2] })).isSome &&
          (x.2.after .ideal 11 x.1 (.event 12 { recv := .data [2] })).bodies == [[1], [2]]) = true :=
    exists_told [csmVm]
      [.event 10 { accept := some (some { uid := 0, groups := [] }) }, .event 12 { recv := .data [0, 0] },
        .event 12 { recv := .data [0, 1] }, .event 12 { recv := .data [1] }, .event 13 { send := .sent 5 },
        .event 13 { send := .again }, .event 12 { recv := .data [0, 0, 0, 1, 3] }] (by decide +kernel)
  simp only [Bool.and_eq_true, beq_iff_eq] at h
  obtain ⟨⟨⟨⟨hbytes, hbodies⟩, hopen⟩, hstep⟩, hafter⟩ := h
  obtain ⟨s', hs'⟩ := Option.isSome_iff_exists.mp hstep
  obtain ⟨⟨rest, -, hrest, -, -⟩, hturn⟩ := requests_reassembled hr hopen [[1], [2]]
    (by decide) (by rw [hbytes]; decide)
  have hne : (tr.after .ideal 11 s (.event 12 { recv := .data [2] })).bodies ≠ tr.bodies := by
    rw [hafter, hbodies]
    decide
  exact ⟨s, s', tr, hr, hbytes, hs', hafter, ⟨rest, hrest⟩,
    (hturn Env.ideal_reliable.kevent _ s' hs' hne).1⟩

end Bmd
