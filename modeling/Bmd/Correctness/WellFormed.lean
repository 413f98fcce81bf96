import Bmd.Correctness.Machine

/-!
# `Correctness.WellFormed` — the lists of the daemon are consistent

`WF` collects what holds of the daemon's lists whatever the system calls answer: addresses are unique and
below the allocation counter, pointers to configurations designate configurations, events are shaped as their
callback expects, pids are unique. It is kept by everything the daemon does; this module shows it for the
frame relations and for the operations on the lists themselves.
-/

namespace Bmd

open Lib Lib.Prog

/-- The consistency of the daemon's lists. -/
structure WF (s : Daemon) : Prop where
  vmNodup : (s.vmList.map (·.addr)).Nodup
  vmBound : ∀ v ∈ s.vmList, v.addr < s.next
  serials : ∀ v ∈ s.vmList, v.serial < s.next
  vmConf : ∀ v ∈ s.vmList, (s.conf? v.conf).isSome
  newConf : ∀ v ∈ s.vmList, ∀ c, v.newConf = some c → (s.conf? c).isSome
  confNodup : (s.confs.map (·.addr)).Nodup
  confBound : ∀ e ∈ s.confs, e.addr < s.next
  listed : ∀ c ∈ s.vmConfList, (s.conf? c).isSome
  events : ∀ e ∈ s.eventList, e.wf
  owned : s.EventsOwned
  eventVms : ∀ e ∈ s.eventList, ∀ a, e.data = .vm a → (s.vm? a).isSome
  pids : (s.procs.map (·.pid)).Nodup
  owners : ∀ p ∈ s.procs, p.owner < s.next
  logged : ∀ x ∈ s.log, ∀ a, x.vm? = some a → a < s.next

variable {s s' : Daemon} {a b : Addr} {v : VmEntry} {c : Addr} {e e' : Event} {t : Daemon}

/-- The lists that have nothing to do with events. -/
def Daemon.lists (s : Daemon) : List VmEntry × List ConfEntry × List Addr × List Proc × List Action :=
  (s.vmList, s.confs, s.vmConfList, s.procs, s.log)

/-- With the same lists and new events. -/
theorem WF.of_lists (hw : WF s) (h : s'.lists = s.lists) (hn : s.next ≤ s'.next) (hev : ∀ e ∈ s'.eventList, e.wf)
    (ho : s'.EventsOwned) (hvms : ∀ e ∈ s'.eventList, ∀ a, e.data = .vm a → (s.vm? a).isSome) : WF s' := by
  simp only [Daemon.lists, Prod.mk.injEq] at h
  obtain ⟨hvm, hc, hcl, hp, hl⟩ := h
  have hconf : ∀ c, s'.conf? c = s.conf? c := fun c => by simp only [Daemon.conf?, hc]
  have hlt : ∀ {n : Nat}, n < s.next → n < s'.next := fun h => Nat.lt_of_lt_of_le h hn
  refine ⟨hvm ▸ hw.vmNodup, ?_, ?_, ?_, ?_, hc ▸ hw.confNodup, ?_, ?_, hev, ho, ?_, hp ▸ hw.pids, ?_, ?_⟩
  · exact fun v hv => hlt (hw.vmBound v (hvm ▸ hv))
  · exact fun v hv => hlt (hw.serials v (hvm ▸ hv))
  · exact fun v hv => by rw [hconf]; exact hw.vmConf v (hvm ▸ hv)
  · exact fun v hv c hvc => by rw [hconf]; exact hw.newConf v (hvm ▸ hv) c hvc
  · exact fun e he => hlt (hw.confBound e (hc ▸ he))
  · exact fun c hc' => by rw [hconf]; exact hw.listed c (hcl ▸ hc')
  · exact fun e he a hd => by simpa only [Daemon.vm?, hvm] using hvms e he a hd
  · exact fun p hp' => hlt (hw.owners p (hp ▸ hp'))
  · exact fun x hx a hxa => hlt (hw.logged x (hl ▸ hx) a hxa)

/-! ## Lookups -/

theorem mem_of_vm? (h : s.vm? a = some v) : v ∈ s.vmList := List.mem_of_find?_eq_some h

theorem addr_of_vm? (h : s.vm? a = some v) : v.addr = a :=
  Keyed.key_of_find? (k := VmEntry.addr) h

/-- With unique addresses, an entry is found at its address. -/
theorem WF.vm?_of_mem (h : WF s) (hv : v ∈ s.vmList) : s.vm? v.addr = some v :=
  Keyed.find?_of_mem h.vmNodup hv

theorem WF.lt_next (h : WF s) (hv : s.vm? a = some v) : a < s.next := by
  rw [← addr_of_vm? hv]
  exact h.vmBound v (mem_of_vm? hv)

/-- The next address is no VM's. -/
theorem WF.next_free (h : WF s) : s.next ∉ s.vmList.map (·.addr) := by
  intro hmem
  obtain ⟨v, hv, heq⟩ := List.mem_map.mp hmem
  exact Nat.ne_of_lt (h.vmBound v hv) heq

theorem WF.conf?_of_mem (h : WF s) {e : ConfEntry} (he : e ∈ s.confs) : s.conf? e.addr = some e :=
  Keyed.find?_of_mem h.confNodup he

theorem WF.ready (h : WF s) (hv : s.vm? a = some v) : s.VmReady a v where
  vm := hv
  method := by rw [methodOf_isSome]; exact h.vmConf v (mem_of_vm? hv)
  serial := h.serials v (mem_of_vm? hv)

theorem vm?_isSome_iff : (s.vm? a).isSome ↔ ∃ v ∈ s.vmList, v.addr = a := by
  rw [Option.isSome_iff_exists]
  constructor
  · rintro ⟨v, hv⟩
    exact ⟨v, mem_of_vm? hv, addr_of_vm? hv⟩
  · rintro ⟨v, hv, rfl⟩
    have hsome : (s.vm? v.addr).isSome := List.find?_isSome.mpr ⟨v, hv, by simp⟩
    exact Option.isSome_iff_exists.mp hsome

theorem conf?_isSome_iff : (s.conf? c).isSome ↔ c ∈ s.confs.map (·.addr) := by
  rw [Daemon.conf?, List.find?_isSome]
  simp

/-! ## Operations on one virtual machine -/

/-- An entry after an operation on the VM at `b` comes from an entry before it. -/
theorem Touch.mem_vmList (h : Touch b s s') (hv : v ∈ s'.vmList) :
    ∃ w ∈ s.vmList, w.addr = v.addr ∧ w.conf = v.conf ∧ w.newConf = v.newConf ∧ (v.addr ≠ b → w = v) := by
  have hmem : (if v.addr == b then v.link else v) ∈ s.links b := by
    rw [← h.links]
    exact List.mem_map_of_mem hv
  obtain ⟨w, hw, hwv⟩ := List.mem_map.mp hmem
  have haddr : w.addr = v.addr := by
    have := congrArg VmEntry.addr hwv
    split at this <;> split at this <;> exact this
  refine ⟨w, hw, haddr, ?_, ?_, fun hb => ?_⟩
  · have := congrArg VmEntry.conf hwv
    split at this <;> split at this <;> exact this
  · have := congrArg VmEntry.newConf hwv
    split at this <;> split at this <;> exact this
  · rw [if_neg (by simpa [haddr] using hb), if_neg (by simpa using hb)] at hwv
    exact hwv

theorem Touch.addrs (h : Touch b s s') : s'.vmList.map (·.addr) = s.vmList.map (·.addr) := by
  have key : ∀ t : Daemon, (t.links b).map (·.addr) = t.vmList.map (·.addr) := by
    intro t
    rw [Daemon.links, List.map_map]
    refine List.map_congr_left fun v _ => ?_
    by_cases hv : v.addr = b <;> simp [hv, VmEntry.link]
  rw [← key, h.links, key]

/-- Every event after an operation on the VM at `b` is an old one, up to its knote, or a new one of `b`. -/
theorem Within.mem_eventList (h : Within b s s') (he : e ∈ s'.eventList) : (∃ e' ∈ s.eventList, e'.blank = e.blank) ∨
      (e.data = .vm b ∧ e.wf ∧ s.next ≤ e.addr ∧ e.blank.armed = true) := by
  obtain ⟨new, keep, hev, hN, -⟩ := h.events
  have hmem : e.blank ∈ new ++ (s.eventList.map Event.blank).filter keep := by
    rw [← hev]
    exact List.mem_map_of_mem he
  rcases List.mem_append.mp hmem with hm | hm
  · right
    have hw := hN.wf _ hm
    exact ⟨by simpa using hN.vm _ hm, by simpa [Event.wf] using hw, by simpa using hN.lower _ hm,
      hN.armed _ hm⟩
  · left
    obtain ⟨e', he', heq⟩ := List.mem_map.mp (List.mem_filter.mp hm).1
    exact ⟨e', he', heq⟩

theorem Event.wf_of_blank (h : e'.blank = e.blank) (hw : e'.wf) : e.wf := by
  have h1 : e'.blank.wf := by simpa [Event.wf] using hw
  rw [h] at h1
  simpa [Event.wf] using h1

theorem Event.data_of_blank (h : e'.blank = e.blank) : e'.data = e.data := by
  have := congrArg Event.data h
  simpa using this

theorem conf?_isSome_of_core (h : s'.core = s.core) : (s'.conf? c).isSome = (s.conf? c).isSome := by
  rw [Bool.eq_iff_iff, ← methodOf_isSome, ← methodOf_isSome]
  exact ⟨methodOf_of_core h.symm, methodOf_of_core h⟩

/-- **Operations on one VM keep the lists consistent.** -/
theorem WF.of_within (hw : Within b s s') (hsome : (s.vm? b).isSome)
    (hser : (s'.view b).serial < s'.next) (h : WF s) : WF s' := by
  have hb : b < s.next := by
    obtain ⟨v, hv⟩ := Option.isSome_iff_exists.mp hsome
    exact h.lt_next hv
  have hb' : b < s'.next := Nat.lt_of_lt_of_le hb hw.next
  have hnodup : (s'.vmList.map (·.addr)).Nodup := by rw [hw.addrs]; exact h.vmNodup
  have hconfs : s'.confs.map (·.addr) = s.confs.map (·.addr) := by
    have := congrArg (fun t : Daemon => t.confs.map (·.addr)) hw.core
    simpa [Daemon.core, List.map_map, Function.comp_def, ConfEntry.setInstall] using this
  constructor
  · exact hnodup
  · intro v hv
    obtain ⟨w, hwm, haddr, -⟩ := hw.mem_vmList hv
    rw [← haddr]
    exact Nat.lt_of_lt_of_le (h.vmBound w hwm) hw.next
  · intro v hv
    obtain ⟨w, hwm, haddr, -, -, heq⟩ := hw.mem_vmList hv
    by_cases hvb : v.addr = b
    · have hfind : s'.vm? b = some v := by
        obtain ⟨v', hv'⟩ := Option.isSome_iff_exists.mp (hw.isSome hsome)
        rw [List.inj_on_of_nodup_map hnodup (mem_of_vm? hv') hv ((addr_of_vm? hv').trans hvb.symm)] at hv'
        exact hv'
      rw [view_serial, vmOf_of_vm? hfind] at hser
      exact hser
    · rw [← heq hvb]
      exact Nat.lt_of_lt_of_le (h.serials w hwm) hw.next
  · intro v hv
    obtain ⟨w, hwm, -, hc, -⟩ := hw.mem_vmList hv
    rw [conf?_isSome_of_core hw.core, ← hc]
    exact h.vmConf w hwm
  · intro v hv c hvc
    obtain ⟨w, hwm, -, -, hc, -⟩ := hw.mem_vmList hv
    rw [conf?_isSome_of_core hw.core]
    exact h.newConf w hwm c (hc.trans hvc)
  · rw [hconfs]
    exact h.confNodup
  · intro e he
    have : e.addr ∈ s.confs.map (·.addr) := hconfs ▸ List.mem_map_of_mem he
    obtain ⟨e', he', heq⟩ := List.mem_map.mp this
    rw [← heq]
    exact Nat.lt_of_lt_of_le (h.confBound e' he') hw.next
  · intro c hc
    have hl : s'.vmConfList = s.vmConfList := (congrArg Daemon.vmConfList hw.core :)
    rw [conf?_isSome_of_core hw.core]
    exact h.listed c (hl ▸ hc)
  · intro e he
    rcases hw.mem_eventList he with ⟨e', he', hbl⟩ | ⟨-, hwf, -⟩
    · exact Event.wf_of_blank hbl (h.events e' he')
    · exact hwf
  · exact hw.owned h.owned
  · intro e he a hd
    rcases hw.mem_eventList he with ⟨e', he', hbl⟩ | ⟨hd', -⟩
    · have hsome' := h.eventVms e' he' a (by rw [Event.data_of_blank hbl, hd])
      by_cases hab : a = b
      · rw [hab]; exact hw.isSome hsome
      · rw [hw.vm?_of_ne hab]; exact hsome'
    · rw [hd'] at hd
      cases hd
      exact hw.isSome hsome
  · exact hw.pids h.pids
  · intro p hp
    by_cases hpo : p.owner = b
    · rw [hpo]; exact hb'
    · have hmem : p ∈ s'.procs.filter (·.owner != b) := List.mem_filter.mpr ⟨hp, by simpa using hpo⟩
      rw [hw.procs] at hmem
      exact Nat.lt_of_lt_of_le (h.owners p (List.mem_filter.mp hmem).1) hw.next
  · intro x hx a hxa
    obtain ⟨l, hl, hnew⟩ := hw.log
    rw [hl] at hx
    rcases List.mem_append.mp hx with hx | hx
    · rw [(hnew x hx).1] at hxa
      cases hxa
      exact hb'
    · exact Nat.lt_of_lt_of_le (h.logged x hx a hxa) hw.next

/-! ## What every operation keeps -/

/-- The events of connections refer to connections. -/
structure Socks (s : Daemon) : Prop where
  live : ∀ e ∈ s.eventList, ∀ a, e.data = .sock a → (s.sock? a).isSome
  bound : ∀ a, (s.sock? a).isSome → a < s.next

/-- An event that was there is armed as it was, up to the knotes of closed descriptors; a new one is armed. -/
def EventsFrom (s s' : Daemon) : Prop := ∀ e' ∈ s'.eventList,
  (∃ e ∈ s.eventList, e.addr = e'.addr ∧ e.data = e'.data ∧ e.blank.armed = e'.blank.armed) ∨
    (s.next ≤ e'.addr ∧ e'.blank.armed = true)

theorem EventsFrom.of_subset (h : ∀ e ∈ s'.eventList, e ∈ s.eventList) : EventsFrom s s' :=
  fun e he => .inl ⟨e, h e he, rfl, rfl, rfl⟩

theorem EventsFrom.of_blank (h : s'.eventList.map Event.blank = s.eventList.map Event.blank) : EventsFrom s s' := by
  intro e he
  have hmem : e.blank ∈ s.eventList.map Event.blank := h ▸ List.mem_map_of_mem he
  obtain ⟨e', he', hbl⟩ := List.mem_map.mp hmem
  exact .inl ⟨e', he', by simpa using congrArg Event.addr hbl, Event.data_of_blank hbl, by rw [hbl]⟩

theorem EventsFrom.trans (h : EventsFrom s t) (hnext : s.next ≤ t.next) (h' : EventsFrom t s') : EventsFrom s s' := by
  intro e he
  rcases h' e he with ⟨e1, he1, ha1, hd1, hb1⟩ | ⟨hlo, hb⟩
  · rcases h e1 he1 with ⟨e0, he0, ha0, hd0, hb0⟩ | ⟨hlo, hb⟩
    · exact .inl ⟨e0, he0, ha0.trans ha1, hd0.trans hd1, hb0.trans hb1⟩
    · exact .inr ⟨ha1 ▸ hlo, hb1 ▸ hb⟩
  · exact .inr ⟨Nat.le_trans hnext hlo, hb⟩

/-- What an operation keeps: the lists are consistent after it, configuration entries are still there, freed or
    not, no event of a VM is disarmed or armed anew, and no event is freed that is not in the list. -/
structure Tidy (s s' : Daemon) : Prop where
  wf : WF s'
  socks : Socks s → Socks s'
  next : s.next ≤ s'.next
  events : EventsFrom s s'
  confs : ∀ c, (s.conf? c).isSome → (s'.conf? c).isSome
  faults : ∀ x, .eventFree x ∈ s'.faults → .eventFree x ∈ s.faults

theorem Tidy.refl (h : WF s) : Tidy s s :=
  ⟨h, id, Nat.le_refl _, .of_subset fun _ => id, fun _ => id, fun _ => id⟩

theorem Tidy.trans (h : Tidy s t) (h' : Tidy t s') : Tidy s s' :=
  ⟨h'.wf, h'.socks ∘ h.socks, Nat.le_trans h.next h'.next, h.events.trans h.next h'.events,
    fun c => h'.confs c ∘ h.confs c, fun x => h.faults x ∘ h'.faults x⟩

theorem Within.tidy (hw : Within b s s') (hsome : (s.vm? b).isSome) (hser : (s'.view b).serial < s'.next)
    (h : WF s) : Tidy s s' := by
  have hsock : ∀ a, s'.sock? a = s.sock? a := fun a => by
    have hl : s'.sockList = s.sockList := (congrArg Daemon.sockList hw.core :)
    simp only [Daemon.sock?, hl]
  refine ⟨h.of_within hw hsome hser, fun hs => ⟨fun e he a hd => ?_, fun a ha => ?_⟩, hw.next,
    fun e he => ?_, fun c hc => by rwa [conf?_isSome_of_core hw.core],
    fun x hx => by rwa [show s'.faults = s.faults from (congrArg Daemon.faults hw.core :)] at hx⟩
  · rcases hw.mem_eventList he with ⟨e', he', hbl⟩ | ⟨hd', -⟩
    · rw [hsock]
      exact hs.live e' he' a (by rw [Event.data_of_blank hbl, hd])
    · rw [hd'] at hd
      cases hd
  · rw [hsock] at ha
    exact Nat.lt_of_lt_of_le (hs.bound a ha) hw.next
  · rcases hw.mem_eventList he with ⟨e', he', hbl⟩ | ⟨-, -, hlo, harm⟩
    · exact .inl ⟨e', he', by simpa using congrArg Event.addr hbl, Event.data_of_blank hbl, by rw [hbl]⟩
    · exact .inr ⟨hlo, harm⟩

end Bmd
