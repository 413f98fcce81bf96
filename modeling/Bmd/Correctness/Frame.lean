import Bmd.Correctness.Footprint
import Bmd.Lib.Keyed
import Mathlib.Data.List.Nodup

/-!
# `Correctness.Frame` — what an operation on one virtual machine leaves alone

Two relations between the state before and after a piece of the daemon's code that works for the VM at `b`:

* `Silent b` — nothing that matters to the life of any VM has changed: only descriptors, tap interfaces,
  files and the fields of the entry at `b` that hold them;
* `Grow b` — besides, the VM at `b` may have changed its state or its process, and events of it may have been
  registered; no event was dropped and no other VM was touched.

What is silent follows from the footprints of the functions.
-/

namespace Bmd

open Lib Lib.Prog

/-! ## Blanking what does not matter -/

/-- The entry without its descriptors, taps, files and method. -/
def VmEntry.blank (v : VmEntry) : VmEntry :=
  { v with
    taps := [], mapfile := none, varsfile := none, assignedComport := none, infd := -1, outfd := -1,
    errfd := -1, logfd := -1, method := none, plConf := none, comportFor := none }

/-- The event without the knote of a descriptor, which goes away with the descriptor. -/
def Event.blank (e : Event) : Event :=
  if e.filter = .read ∨ e.filter = .write then { e with armed := true } else e

/-- The state without descriptors, taps, files and counters of the kernel; of the VM at `b` the entry is
    blanked, of the other VMs it is kept. -/
def Daemon.blank (b : Addr) (s : Daemon) : Daemon :=
  { s with
    vmList := s.vmList.map fun v => if v.addr == b then v.blank else v
    eventList := s.eventList.map Event.blank
    fds := [], pipes := [], taps := [], files := [], next := 0, tick := 0 }

/-- Nothing changed that the life of a VM depends on. -/
def Silent (b : Addr) (s s' : Daemon) : Prop := s'.blank b = s.blank b ∧ s.next ≤ s'.next

instance (b : Addr) : IsPreorder Daemon (Silent b) where
  refl _ := ⟨rfl, Nat.le_refl _⟩
  trans _ _ _ h h' := ⟨h'.1.trans h.1, Nat.le_trans h.2 h'.2⟩

@[simp] theorem VmEntry.blank_addr (v : VmEntry) : v.blank.addr = v.addr := rfl
@[simp] theorem VmEntry.blank_state (v : VmEntry) : v.blank.state = v.state := rfl
@[simp] theorem VmEntry.blank_pid (v : VmEntry) : v.blank.pid = v.pid := rfl
@[simp] theorem VmEntry.blank_serial (v : VmEntry) : v.blank.serial = v.serial := rfl
@[simp] theorem VmEntry.blank_conf (v : VmEntry) : v.blank.conf = v.conf := rfl
@[simp] theorem VmEntry.blank_newConf (v : VmEntry) : v.blank.newConf = v.newConf := rfl

@[simp] theorem Event.blank_addr (e : Event) : e.blank.addr = e.addr := by unfold blank; split <;> rfl
@[simp] theorem Event.blank_data (e : Event) : e.blank.data = e.data := by unfold blank; split <;> rfl
@[simp] theorem Event.blank_cb (e : Event) : e.blank.cb = e.cb := by unfold blank; split <;> rfl
@[simp] theorem Event.blank_filter (e : Event) : e.blank.filter = e.filter := by unfold blank; split <;> rfl
@[simp] theorem Event.blank_ident (e : Event) : e.blank.ident = e.ident := by unfold blank; split <;> rfl
@[simp] theorem Event.blank_flags (e : Event) : e.blank.flags = e.flags := by unfold blank; split <;> rfl
@[simp] theorem Event.blank_type (e : Event) : e.blank.type = e.type := by unfold blank; split <;> rfl
@[simp] theorem Event.blank_purpose (e : Event) : e.blank.purpose = e.purpose := by
  unfold blank; split <;> rfl

variable {e : Event}

theorem Event.blank_armed (h : e.armed = true) : e.blank.armed = true := by
  unfold blank; split
  · rfl
  · exact h

/-- The knote of a timer or a process is not blanked. -/
theorem Event.blank_of_not_fd (h : e.filter ≠ .read) (h' : e.filter ≠ .write) : e.blank = e :=
  if_neg (by simp [h, h'])

/-! ## What is silent -/

section Silent

variable {b : Addr} {s s' : Daemon}

instance : Counts (Silent b) := ⟨⟨rfl, Nat.le_refl _⟩, ⟨rfl, Nat.le_succ _⟩⟩

instance Silent.changes {k : Store} [h : Holds (k matches .fds | .pipes | .taps | .files)] : Changes (Silent b) k := by
  refine .of_proj (f := fun s => (s.blank b, s.next)) (fun h => ?_)
    (by cases k <;> first | exact fun _ => rfl | cases h.holds)
  exact ⟨(Prod.mk.inj h).1, Nat.le_of_eq (Prod.mk.inj h).2.symm⟩

instance : Closes (Silent b) where
  close fd := by
    refine Keeps.modify fun s => ⟨?_, Nat.le_refl _⟩
    have hmap : (s.eventList.map fun e =>
        if (e.filter == .read || e.filter == .write) && e.ident == fd then { e with armed := false }
        else e).map Event.blank = s.eventList.map Event.blank := by
      rw [List.map_map]
      refine List.map_congr_left fun e _ => ?_
      by_cases hfd : e.filter = .read ∨ e.filter = .write
      · by_cases hid : e.ident = fd <;> simp [Event.blank, hfd, hid]
      · push Not at hfd
        simp [hfd.1, hfd.2]
    simp only [Daemon.blank, hmap]

instance Silent.writes {p : Part}
    [h : Holds (p matches .taps | .mapfile | .vars | .console | .wires | .log | .method)] :
    Writes (Silent b) p b := by
  refine .of_proj (f := VmEntry.blank) (fun {s g} hf _ => ⟨?_, Nat.le_refl _⟩)
    (by cases p <;> first | exact fun _ => rfl | cases h.holds)
  have hmap : (s.vmList.map fun v => if v.addr == b then g v else v).map
      (fun v => if v.addr == b then v.blank else v) =
      s.vmList.map fun v => if v.addr == b then v.blank else v := by
    rw [List.map_map]
    refine List.map_congr_left fun v _ => ?_
    have haddr : (g v).blank.addr = v.blank.addr := congrArg VmEntry.addr (hf v)
    rw [VmEntry.blank_addr, VmEntry.blank_addr] at haddr
    by_cases hv : v.addr = b <;> simp [hv, hf, haddr]
  simp only [Daemon.blank, Daemon.modVm, hmap]

end Silent

/-! ## Registering events -/

/-- The state apart from the event list and the counters. -/
def Daemon.sansEvents (s : Daemon) : Daemon := { s with eventList := [], memory := {}, next := 0, tick := 0 }

/-- Events that satisfy `P`, with new addresses, were put in front of the list; nothing else happened. -/
structure Adds (P : Event → Prop) (s s' : Daemon) : Prop where
  events : ∃ new, s'.eventList = new ++ s.eventList ∧ (new.map (·.addr)).Nodup ∧
    ∀ e ∈ new, P e ∧ s.next ≤ e.addr ∧ e.addr < s'.next
  rest : s'.sansEvents = s.sansEvents
  next : s.next ≤ s'.next

section Register

variable {P : Event → Prop} {env : Env} {type : EventType} {k : Kev} {cb : Callback} {data : Data}
  {purpose : Option Purpose} {s s' : Daemon} {r : Int}

theorem nodup_of_ranges {l l' : List Event} {lo mid hi : Nat} (hl : (l.map (·.addr)).Nodup)
    (hl' : (l'.map (·.addr)).Nodup) (hlt : ∀ e ∈ l', mid ≤ e.addr ∧ e.addr < hi)
    (hlt' : ∀ e ∈ l, lo ≤ e.addr ∧ e.addr < mid) : ((l' ++ l).map (·.addr)).Nodup := by
  rw [List.map_append, List.nodup_append]
  refine ⟨hl', hl, fun x hx y hy => ?_⟩
  obtain ⟨e', he', rfl⟩ := List.mem_map.mp hx
  obtain ⟨e, he, rfl⟩ := List.mem_map.mp hy
  have h1 := hlt e' he'
  have h2 := hlt' e he
  omega

/-- **`register_event0`.** Either it fails and leaves the list as it is, or it puts one event in front. -/
theorem registerEvent0_spec (h : registerEvent0 env type k cb data purpose s = .ok (r, s')) :
    s'.sansEvents = s.sansEvents ∧ s.next ≤ s'.next ∧
      ((r = -1 ∧ s'.eventList = s.eventList ∧ (env.Registers → k.invalid = true)) ∨
       (r = 0 ∧ s'.eventList = mkEvent s.next type k cb data purpose :: s.eventList ∧ s.next < s'.next ∧
          k.invalid = false)) := by
  obtain ⟨okm, s1, h1, h⟩ := of_bind h
  cases h1
  by_cases hm : env.malloc s.tick = true
  · rw [if_neg (by simp [hm])] at h
    obtain ⟨addr, s2, h2, h⟩ := of_bind h
    cases h2
    obtain ⟨okk, s3, h3, h⟩ := of_bind h
    obtain ⟨ok, s4, h4, h3⟩ := of_bind h3
    cases h4
    obtain ⟨rfl, rfl⟩ := pure_ok.mp h3
    cases hk : env.kevent (s.tick + 1) && !k.invalid with
    | true =>
      rw [if_neg (by simp only [List.isEmpty_cons, Bool.or_false, List.all_cons, List.all_nil, Bool.and_true, hk]; decide)] at h
      cases h
      exact ⟨rfl, Nat.le_succ _, .inr ⟨rfl, rfl, Nat.lt_succ_self _, by simp_all⟩⟩
    | false =>
      rw [if_pos (by simp only [List.isEmpty_cons, Bool.or_false, List.all_cons, List.all_nil, Bool.and_true, hk]; decide)] at h
      cases h
      refine ⟨rfl, Nat.le_succ _, .inl ⟨rfl, rfl, fun hr => ?_⟩⟩
      simpa [hr.kevent] using hk
  · rw [if_pos (by simp [hm])] at h
    cases h
    exact ⟨rfl, Nat.le_refl _, .inl ⟨rfl, rfl, fun hr => (hm (hr.malloc _)).elim⟩⟩

theorem registerEvent0_adds (hP : ∀ addr, P (mkEvent addr type k cb data purpose)) :
    Keeps (Adds P) (registerEvent0 env type k cb data purpose) := by
  intro s r s' h
  obtain ⟨hrest, hnext, ⟨_, hev, _⟩ | ⟨_, hev, hlt, _⟩⟩ := registerEvent0_spec h
  · exact ⟨⟨[], hev, List.nodup_nil, by simp⟩, hrest, hnext⟩
  · refine ⟨⟨[_], hev, by simp, ?_⟩, hrest, hnext⟩
    intro e he
    rw [List.mem_singleton.mp he]
    exact ⟨hP _, Nat.le_refl _, hlt⟩

/-- The addresses of `register_events` are consecutive. -/
theorem allocEvents_spec : ∀ (n : Nat) {s s' : Daemon} {r : Option (List Addr)},
    allocEvents env n s = .ok (r, s') →
    s'.sansEvents = s.sansEvents ∧ s'.eventList = s.eventList ∧ s'.next = s.next + n ∧
      (∀ addrs, r = some addrs → addrs = List.range' s.next n) ∧ (env.Registers → r.isSome)
  | 0, s, s', r, h => by
    cases h
    exact ⟨rfl, rfl, rfl, fun _ h => by cases h; rfl, fun _ => rfl⟩
  | n + 1, s, s', r, h => by
    obtain ⟨ok, s1, h1, h⟩ := of_bind h
    cases h1
    obtain ⟨addr, s2, h2, h⟩ := of_bind h
    cases h2
    obtain ⟨rest, s3, h3, h⟩ := of_bind h
    obtain ⟨rfl, rfl⟩ := pure_ok.mp h
    obtain ⟨hrest, hev, hnext, haddrs, hsome⟩ := allocEvents_spec n h3
    refine ⟨hrest, hev, by rw [hnext]; show s.next + 1 + n = _; omega, ?_, ?_⟩
    · intro addrs ha
      split at ha
      · cases rest with
        | none => cases ha
        | some l => cases ha; rw [haddrs l rfl]; rfl
      · cases ha
    · intro hr
      simp [hr.malloc, hsome hr]

theorem insertEvents_adds : ∀ (l : List (Kev × Callback × Data)) (addrs : List Addr) (s s' : Daemon),
    (∀ x ∈ l, ∀ addr, P (mkEvent addr .event x.1 x.2.1 x.2.2 none)) →
    insertEvents addrs l s = .ok ((), s') →
    s'.sansEvents = s.sansEvents ∧ s'.next = s.next ∧
      ∃ new, s'.eventList = new ++ s.eventList ∧ (∀ e ∈ new, P e) ∧
        (new.map (·.addr)).reverse.Sublist addrs
  | [], addrs, s, s', _, h => by
    cases addrs <;> cases h <;> exact ⟨rfl, rfl, [], rfl, by simp, by simp⟩
  | x :: l, [], s, s', _, h => by
    cases h
    exact ⟨rfl, rfl, [], rfl, by simp, by simp⟩
  | (k, cb, data) :: l, addr :: addrs, s, s', hP, h => by
    obtain ⟨_, s1, h1, h⟩ := of_bind h
    cases h1
    obtain ⟨hrest, hnext, new, hnew, hPn, hsub⟩ :=
      insertEvents_adds l addrs _ s' (fun x hx => hP x (List.mem_cons_of_mem _ hx)) h
    refine ⟨hrest, hnext, new ++ [mkEvent addr .event k cb data none], ?_, ?_, ?_⟩
    · rw [hnew, List.append_assoc]; rfl
    · intro e he
      rcases List.mem_append.mp he with he | he
      · exact hPn e he
      · rw [List.mem_singleton.mp he]
        exact hP _ List.mem_cons_self _
    · rw [List.map_append, List.reverse_append]
      exact hsub.cons_cons addr

variable {l : List (Kev × Callback × Data)}

/-- **`register_events`.** The events are inserted in a state `t`, or none of them is. -/
theorem registerEvents_cases (h : registerEvents env l s = .ok (r, s')) :
    ∃ t, t.sansEvents = s.sansEvents ∧ t.eventList = s.eventList ∧ t.next = s.next + l.length ∧
      ((r = -1 ∧ s' = t ∧ (env.Registers → ∃ x ∈ l, x.1.invalid = true)) ∨
        (r = 0 ∧ insertEvents (List.range' s.next l.length) l t = .ok ((), s'))) := by
  obtain ⟨addrs, s1, h1, h⟩ := of_bind h
  obtain ⟨hrest, hev, hnext, haddrs, hsome⟩ := allocEvents_spec _ h1
  cases addrs with
  | none =>
    cases h
    exact ⟨s', hrest, hev, hnext, .inl ⟨rfl, rfl, fun hr => by cases hsome hr⟩⟩
  | some addrs =>
    obtain rfl := haddrs addrs rfl
    obtain ⟨ok, s2, h2, h⟩ := of_bind h
    obtain ⟨ok', s3, h3, h2⟩ := of_bind h2
    cases h3
    obtain ⟨rfl, rfl⟩ := pure_ok.mp h2
    refine ⟨{ s1 with tick := s1.tick + 1 }, hrest, hev, hnext, ?_⟩
    split at h
    · next hfail =>
      cases h
      refine .inl ⟨rfl, rfl, fun hr => ?_⟩
      simpa [hr.kevent] using hfail
    · obtain ⟨_, s4, h4, h⟩ := of_bind h
      obtain ⟨rfl, rfl⟩ := pure_ok.mp h
      exact .inr ⟨rfl, h4⟩

theorem registerEvents_adds
    (hP : ∀ x ∈ l, ∀ addr, P (mkEvent addr .event x.1 x.2.1 x.2.2 none)) :
    Keeps (Adds P) (registerEvents env l) := by
  intro s r s' h
  obtain ⟨t, hrest, hev, hnext, ⟨-, rfl, -⟩ | ⟨-, h⟩⟩ := registerEvents_cases h
  · exact ⟨⟨[], hev, List.nodup_nil, by simp⟩, hrest, by omega⟩
  · obtain ⟨hrest', hnext', new, hnew, hPn, hsub⟩ := insertEvents_adds l _ _ _ hP h
    have hnd : (new.map (·.addr)).reverse.Nodup := (List.nodup_range' ..).sublist hsub
    refine ⟨⟨new, by rw [hnew, hev], List.nodup_reverse.mp hnd, fun e he => ⟨hPn e he, ?_⟩⟩, hrest'.trans hrest, by omega⟩
    have hmem := hsub.subset (List.mem_reverse.mpr (List.mem_map_of_mem he))
    rw [List.mem_range'_1] at hmem
    omega

/-- When `register_events` fails, no event was registered. -/
theorem registerEvents_failed
    (h : registerEvents env l s = .ok (r, s')) (hr : r < 0) : s'.eventList = s.eventList := by
  obtain ⟨t, -, hev, -, ⟨-, rfl, -⟩ | ⟨rfl, -⟩⟩ := registerEvents_cases h
  · exact hev
  · cases hr

/-- If events can be registered, `register_events` fails only for invalid ones. -/
theorem registerEvents_reliable (hr : env.Registers)
    (hl : ∀ x ∈ l, x.1.invalid = false)
    (h : registerEvents env l s = .ok (r, s')) : r = 0 := by
  obtain ⟨t, -, -, -, ⟨-, -, hinv⟩ | ⟨rfl, -⟩⟩ := registerEvents_cases h
  · obtain ⟨x, hx, hbad⟩ := hinv hr
    cases (hl x hx).symm.trans hbad
  · rfl

end Register

end Bmd
