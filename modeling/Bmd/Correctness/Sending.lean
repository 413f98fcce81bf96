import Bmd.Lib.Framing
import Bmd.Correctness.Runs

/-!
# `Correctness.Sending` — `send_sock_buf`

The bytes that the calls for one response hand to `sendmsg` are the response from the place that the calls before
have reached, so what is on the wire is always a prefix of it. The test for the end after `sendmsg` compares with
`res_bytes`, which is zero: it holds when the header is out and nothing of the body is. The end itself is found at
the next call.
-/

namespace Bmd

open Lib Lib.Prog

variable {s s' t t' : Daemon} {a : Addr} {env : Env} {sb sb' : SockBuf} {r : SendResult} {now rc : Int} {ok : Bool}
  {w : List UInt8} {u : Unit} {sb₀ : SockBuf}

/-- The response with its header. -/
def SockBuf.response (sb : SockBuf) : List UInt8 := Framing.frame htonl sb.resBuf

/-- The bytes that `sendmsg` takes. -/
def SockBuf.accepted (sb : SockBuf) : SendResult → List UInt8
  | .again | .error => []
  | .sent n => sb.offered.take n

/-- The bytes that go to the socket in a call of `send_sock_buf`; `ok` is the answer of `calloc`. -/
def SockBuf.writes (sb : SockBuf) (ok : Bool) (r : SendResult) : List UInt8 :=
  if sb.resSize = 0 ∨ sb.sentSize = sb.resSize + 4 then []
  else if sb.resFd ≠ -1 ∧ !ok then []
  else sb.accepted r

theorem length_htonl (n : Nat) : (htonl n).length = 4 := rfl

/-- A response is set and has been sent up to `sent_size`. -/
structure SockBuf.Sending (sb : SockBuf) : Prop where
  size : sb.resSize = sb.resBuf.length
  pos : 0 < sb.resSize
  bytes : sb.resBytes = 0
  le : sb.sentSize ≤ sb.resSize + 4

namespace SockBuf.Sending

theorem length_response (h : sb.Sending) : sb.response.length = sb.resSize + 4 := by
  rw [response, Framing.frame, List.length_append, length_htonl, h.size, Nat.add_comm]

/-- What is offered is the response from `sent_size` on. -/
theorem offered_eq (h : sb.Sending) : sb.offered = sb.response.drop sb.sentSize := by
  have hbody : sb.resBuf.take sb.resSize = sb.resBuf := by rw [h.size, List.take_length]
  rw [offered, response, Framing.frame, hbody, h.size]
  split
  · next hlt =>
    rw [List.drop_append_of_le_length]
    rw [length_htonl]
    omega
  · next hge =>
    have hhdr : (htonl sb.resBuf.length).drop sb.sentSize = [] :=
      List.drop_of_length_le (by rw [length_htonl]; omega)
    rw [List.drop_append, length_htonl, hhdr, List.nil_append]

/-- A call goes on where the call before stopped. -/
theorem append_writes (h : sb.Sending) (ok : Bool) (r : SendResult) (hw : w = sb.response.take sb.sentSize) :
    w ++ sb.writes ok r = sb.response.take (sb.sentSize + (sb.writes ok r).length) := by
  have hpre : sb.writes ok r <+: sb.response.drop sb.sentSize := by
    unfold writes
    split
    · exact List.nil_prefix
    · split
      · exact List.nil_prefix
      · cases r with
        | again | error => exact List.nil_prefix
        | sent n =>
          rw [← h.offered_eq]
          exact List.take_prefix _ _
  rw [List.take_add, ← List.prefix_iff_eq_take.mp hpre, hw]

end SockBuf.Sending

/-! ## One call -/

/-- **What a call does.** -/
structure SentBy (env : Env) (sb : SockBuf) (r : SendResult) (t : Daemon) (rc : Int) (sb' : SockBuf) : Prop where
  buf : sb'.resBuf = sb.resBuf
  size : sb'.resSize = sb.resSize
  bytes : sb'.resBytes = sb.resBytes
  sent : sb'.sentSize = sb.sentSize + (sb.writes (env.malloc t.tick) r).length
  done : rc = 2 ↔ sb.sentSize = sb.resSize + 4 ∨ (sb.writes (env.malloc t.tick) r ≠ [] ∧ sb'.sentSize = 4)

/-- `sendmsg` changes the progress only. -/
theorem SockBuf.sendDone_rest (sb : SockBuf) (now : Int) (r : SendResult) :
    ∃ time sent, (sb.sendDone now r).1 = { sb with eventTime := time, sentSize := sent } := by
  cases r with
  | again | error => exact ⟨_, _, rfl⟩
  | sent n =>
    simp only [sendDone]
    split <;> exact ⟨_, _, rfl⟩

/-- The state of the transfer after `sendmsg`. -/
theorem SockBuf.Sending.sendDone_spec (h : sb.Sending) (now : Int) (r : SendResult)
    (hne : ¬(sb.resSize = 0 ∨ sb.sentSize = sb.resSize + 4))
    (hok : ¬(sb.resFd ≠ -1 ∧ !ok)) :
    (sb.sendDone now r).1.sentSize = sb.sentSize + (sb.writes ok r).length ∧
      ((sb.sendDone now r).2 = 2 ↔ sb.writes ok r ≠ [] ∧ (sb.sendDone now r).1.sentSize = 4) := by
  have hw : sb.writes ok r = sb.accepted r := by
    rw [writes, if_neg hne, if_neg hok]
  rw [hw]
  cases r with
  | again | error => exact ⟨rfl, by simp [sendDone, accepted]⟩
  | sent n =>
    show _ = sb.sentSize + (sb.offered.take n).length ∧ (_ ↔ sb.offered.take n ≠ [] ∧ _)
    have hlen : (sb.offered.take n).length = min n sb.offered.length := List.length_take
    have hnil : sb.offered.take n = [] ↔ min n sb.offered.length = 0 := by
      rw [← hlen, List.length_eq_zero_iff]
    simp only [sendDone]
    split
    · next hz =>
      rw [hlen, hz]
      refine ⟨rfl, ?_⟩
      simp [hnil.mpr hz]
    · next hz =>
      rw [hlen, h.bytes]
      refine ⟨rfl, ?_⟩
      have hne' : sb.offered.take n ≠ [] := fun heq => hz (hnil.mp heq)
      simp only [hne', ne_eq, not_false_eq_true, true_and, Nat.zero_add]
      split <;> simp_all

/-- Lookup of a connection that was written to. -/
theorem modSock_lookup {f : SockBuf → SockBuf} (h : modSock a f s = .ok (u, s'))
    (hf : ∀ x, (f x).addr = x.addr) (hs : s.sock? a = some sb) : s'.sock? a = some (f sb) := by
  rw [of_modify h]
  refine (Keyed.find?_update_self (k := SockBuf.addr) hf s.sockList a).trans ?_
  exact congrArg (Option.map f) hs

theorem vmClose_sock? {fd : Fd} (h : vmClose fd s = .ok (u, s')) : s'.sock? a = s.sock? a := by
  unfold vmClose whenever at h
  split at h <;> cases h <;> rfl

theorem sendSockBuf_spec (hs : t.sock? a = some sb) (hS : sb.Sending) (h : sendSockBuf env sb r now t = .ok (rc, t')) :
    ∃ sb', t'.sock? a = some sb' ∧ SentBy env sb r t rc sb' := by
  have ha : sb.addr = a := Keyed.key_of_find? (k := SockBuf.addr) hs
  unfold sendSockBuf at h
  split at h
  · next hend =>
    cases h
    have hw : sb.writes (env.malloc t.tick) r = [] := if_pos hend
    have hsent := hend.resolve_left (Nat.ne_of_gt hS.pos)
    exact ⟨sb, hs, rfl, rfl, rfl, by rw [hw]; rfl, iff_of_true rfl (.inl hsent)⟩
  · next hend =>
    obtain ⟨ok, t1, h1, h⟩ := of_bind h
    cases h1
    have hnot : sb.sentSize ≠ sb.resSize + 4 := fun heq => hend (.inr heq)
    split at h
    · next hok =>
      cases h
      have hw : sb.writes (env.malloc t.tick) r = [] := by rw [SockBuf.writes, if_neg hend, if_pos hok]
      refine ⟨sb, hs, rfl, rfl, rfl, by rw [hw]; rfl, iff_of_false (by decide) ?_⟩
      rw [hw]
      simp [hnot]
    · next hok =>
      obtain ⟨_, t2, h2, h⟩ := of_bind h
      obtain ⟨_, t3, h3, h⟩ := of_bind h
      cases h
      obtain ⟨_, t4, h4, h3⟩ := of_bind h3
      have hs2 := modSock_lookup h2 (fun b => b.sendDone_addr now r) (ha ▸ hs)
      have hs4 := (vmClose_sock? h4).trans hs2
      have hs3 := modSock_lookup h3 (f := ({ · with resFd := -1 })) (fun _ => rfl) hs4
      rw [ha] at hs3
      obtain ⟨hsent, hdone⟩ := hS.sendDone_spec now r hend hok
      obtain ⟨time, sent, hrest⟩ := sb.sendDone_rest now r
      refine ⟨_, hs3, ?_, ?_, ?_, hsent, ?_⟩
      · rw [hrest]
      · rw [hrest]
      · rw [hrest]
      · simp only [hnot, false_or]
        exact hdone

/-! ## All calls for one response -/

/-- Calls of `send_sock_buf` that all asked to be continued, with the bytes they wrote. -/
inductive Transfer (env : Env) (a : Addr) (s : Daemon) : List UInt8 → Daemon → Prop where
  | start : Transfer env a s [] s
  | call {w : List UInt8} {t t' : Daemon} {sb : SockBuf} {r : SendResult} {now : Int} (h : Transfer env a s w t)
      (hs : t.sock? a = some sb) (hc : sendSockBuf env sb r now t = .ok (1, t')) :
      Transfer env a s (w ++ sb.writes (env.malloc t.tick) r) t'

/-- The transfer has written `w` of the response of `sb₀`. -/
structure SockBuf.Reached (sb₀ : SockBuf) (w : List UInt8) (sb : SockBuf) : Prop where
  sending : sb.Sending
  buf : sb.resBuf = sb₀.resBuf
  written : w = sb.response.take sb.sentSize

theorem SockBuf.Reached.call (h : sb₀.Reached w sb) (hc : SentBy env sb r t rc sb') :
    sb₀.Reached (w ++ sb.writes (env.malloc t.tick) r) sb' := by
  have hres : sb'.response = sb.response := by rw [response, hc.buf, response]
  have hw := h.sending.append_writes (env.malloc t.tick) r h.written
  refine ⟨⟨?_, ?_, ?_, ?_⟩, hc.buf.trans h.buf, ?_⟩
  · rw [hc.size, hc.buf, h.sending.size]
  · rw [hc.size]
    exact h.sending.pos
  · rw [hc.bytes, h.sending.bytes]
  · -- no more than what was offered has been written
    have hlen := congrArg List.length hw
    have hwl := congrArg List.length h.written
    rw [List.length_take, h.sending.length_response] at hlen hwl
    have hle := h.sending.le
    rw [List.length_append] at hlen
    rw [hc.sent, hc.size]
    omega
  · rw [hw, hres, hc.sent]

theorem Transfer.reached (h₀ : s.sock? a = some sb₀) (hsent : sb₀.sentSize = 0)
    (hS : sb₀.Sending) (h : Transfer env a s w t) (hs : t.sock? a = some sb) :
    sb₀.Reached w sb ∧ sb.sentSize ≠ 4 := by
  induction h generalizing sb with
  | start =>
    rw [h₀] at hs
    cases hs
    refine ⟨⟨hS, rfl, ?_⟩, ?_⟩
    · rw [hsent]
      rfl
    · rw [hsent]
      decide
  | call _ hs' hc ih =>
    obtain ⟨hR, hne⟩ := ih hs'
    obtain ⟨sb', hs'', hby⟩ := sendSockBuf_spec hs' hR.sending hc
    rw [hs] at hs''
    cases hs''
    refine ⟨hR.call hby, fun h4 => ?_⟩
    -- the call did not return 2, so it did not stop behind the header
    have hnot := mt hby.done.mpr (by decide)
    refine hnot (.inr ⟨fun hnil => hne ?_, h4⟩)
    rw [hby.sent, hnil] at h4
    exact h4

/-- **Responses.** What the calls for a response have written is always a prefix of it; a call that ends the transfer
    ends it with the whole response, unless exactly the header has been written. -/
theorem response_complete_iff {sb₀ : SockBuf} (h₀ : s.sock? a = some sb₀) (hsent : sb₀.sentSize = 0)
    (hsize : sb₀.resSize = sb₀.resBuf.length) (hpos : 0 < sb₀.resSize) (hbytes : sb₀.resBytes = 0)
    (h : Transfer env a s w t) (hs : t.sock? a = some sb) (hc : sendSockBuf env sb r now t = .ok (rc, t')) :
    w ++ sb.writes (env.malloc t.tick) r <+: sb₀.response ∧
      ((rc = 2 → w ++ sb.writes (env.malloc t.tick) r = sb₀.response) ↔
        (w ++ sb.writes (env.malloc t.tick) r).length ≠ 4) := by
  obtain ⟨hR, hne⟩ := h.reached h₀ hsent ⟨hsize, hpos, hbytes, by omega⟩ hs
  obtain ⟨sb', -, hby⟩ := sendSockBuf_spec hs hR.sending hc
  have hR' := hR.call hby
  have hres : sb'.response = sb₀.response := by rw [SockBuf.response, hR'.buf, SockBuf.response]
  have hlen : (w ++ sb.writes (env.malloc t.tick) r).length = sb'.sentSize := by
    rw [hR'.written, List.length_take, hR'.sending.length_response]
    exact Nat.min_eq_left hR'.sending.le
  refine ⟨?_, fun hcomplete h4 => ?_, fun hne4 hrc => ?_⟩
  · rw [hR'.written, hres]
    exact List.take_prefix _ _
  · have hw : sb.writes (env.malloc t.tick) r ≠ [] := by
      intro hnil
      rw [hlen, hby.sent, hnil] at h4
      exact hne h4
    have hwhole := congrArg List.length (hcomplete (hby.done.mpr (.inr ⟨hw, hlen ▸ h4⟩)))
    rw [h4, ← hres, hR'.sending.length_response] at hwhole
    have hpos' := hR'.sending.pos
    omega
  · have hend : sb'.sentSize = sb'.resSize + 4 := by
      have hle := hR'.sending.le
      rcases hby.done.mp hrc with hend | ⟨-, h4⟩
      · have hsent := hby.sent
        have hsz := hby.size
        omega
      · exact (hne4 (hlen.trans h4)).elim
    rw [hR'.written, hend, ← hR'.sending.length_response, List.take_length, hres]

/-- The daemon with one connection, which has a response of one byte. -/
def oneResponse : Daemon :=
  { Daemon.empty 0 with sockList := [(mkSockBuf 1 5 0 none).setResponse [7]] }

/-- The header goes out in two pieces, the second one with the body; the next call ends the transfer. -/
theorem response_complete_iff_pieces : ∃ t t' sb, Transfer .ideal 1 oneResponse [0, 0, 0, 1, 7] t ∧
    t.sock? 1 = some sb ∧ sendSockBuf .ideal sb .again 0 t = .ok (2, t') ∧
      [0, 0, 0, 1, 7] = ((mkSockBuf 1 5 0 none).setResponse [7]).response := by
  have h1 := @Transfer.call .ideal 1 oneResponse [] oneResponse _ ((mkSockBuf 1 5 0 none).setResponse [7]) (.sent 2) 0
    .start rfl rfl
  obtain ⟨t, t', sb, h2, hs, hc, hw⟩ : ∃ t t' sb, Transfer .ideal 1 oneResponse [0, 0, 0, 1, 7] t ∧
      t.sock? 1 = some sb ∧ sendSockBuf .ideal sb .again 0 t = .ok (2, t') ∧ sb.writes true .again = [] :=
    ⟨_, _, _, @Transfer.call .ideal 1 oneResponse _ _ _ _ (.sent 3) 0 h1 rfl rfl, rfl, rfl, rfl⟩
  have hend := (response_complete_iff rfl rfl rfl (by decide) rfl h2 hs hc).2.mpr
  rw [show Env.ideal.malloc t.tick = true from rfl, hw] at hend
  exact ⟨t, t', sb, h2, hs, hc, hend (by decide) rfl⟩

/-- The first `sendmsg` takes the header only: the transfer ends without the body. -/
theorem response_lost_after_header : ∃ s, Reach (bmd .ideal) anyStep s ∧ ∃ sb t', s.sock? 11 = some sb ∧
    sb.sentSize = 0 ∧ sendSockBuf .ideal sb (.sent 4) 0 s = .ok (2, t') ∧
      sb.writes true (.sent 4) = [0, 0, 0, 1] ∧ sb.response = [0, 0, 0, 1, 0] := by
  obtain ⟨s, hr, h⟩ : ∃ s, Reach (bmd .ideal) anyStep s ∧ ((s.sock? 11).any fun sb => sb.sentSize == 0 &&
      (match sendSockBuf .ideal sb (.sent 4) 0 s with | .ok (rc, _) => rc == 2 | .error _ => false) &&
        sb.writes true (.sent 4) == [0, 0, 0, 1] && sb.response == [0, 0, 0, 1, 0]) = true :=
    exists_reach [csmVm] (clientSends 10 12 1) (by decide +kernel)
  obtain ⟨sb, hsb, h⟩ := (Option.any_eq_true _ _).mp h
  simp only [Bool.and_eq_true, beq_iff_eq] at h
  obtain ⟨⟨⟨hsent, hrc⟩, hw⟩, hres⟩ := h
  split at hrc
  · next rc t' hcall =>
    rw [eq_of_beq hrc] at hcall
    exact ⟨s, hr, sb, t', hsb, hsent, hcall, hw, hres⟩
  · cases hrc

end Bmd
