import Bmd.Correctness.Connections

/-!
# `Correctness.Lists` — configurations, and entries of `vm_list`

What the daemon does to configuration entries (`ConfSide`) and to the pointers from VMs to them is calm. An
entry of `vm_list` appears at a new address, and it disappears together with the events that refer to it.
-/

namespace Bmd

open Lib Lib.Prog

variable {s s' : Daemon} {a b : Addr} {env : Env} {f : VmEntry → VmEntry} {u : Unit}

/-! ## Configuration entries -/

/-- Only configuration entries changed; new ones have new addresses. -/
structure ConfSide (s s' : Daemon) : Prop where
  vms : s'.vmList = s.vmList
  events : s'.eventList = s.eventList
  freed : s'.freedEvents = s.freedEvents
  socks : s'.sockList = s.sockList
  procs : s'.procs = s.procs
  log : s'.log = s.log
  forced : s'.forced = s.forced
  exits : s'.exits = s.exits
  next : s.next ≤ s'.next
  confs : ∃ l, s'.confs.map (·.addr) = l ++ s.confs.map (·.addr) ∧ l.Nodup ∧
    ∀ c ∈ l, s.next ≤ c ∧ c < s'.next
  listed : ∀ c ∈ s'.vmConfList, c ∈ s.vmConfList ∨ (s'.conf? c).isSome
  faults : ∀ x, .eventFree x ∈ s'.faults → .eventFree x ∈ s.faults

/-- A configuration entry stays, freed or not. -/
theorem ConfSide.isSome (h : ConfSide s s') {c : Addr} (hc : (s.conf? c).isSome) : (s'.conf? c).isSome := by
  obtain ⟨l, hl, -⟩ := h.confs
  rw [conf?_isSome_iff] at hc ⊢
  rw [hl]
  exact List.mem_append_right l hc

instance : IsPreorder Daemon ConfSide where
  refl s := ⟨rfl, rfl, rfl, rfl, rfl, rfl, rfl, rfl, Nat.le_refl _, ⟨[], rfl, List.nodup_nil, by simp⟩, fun _ h => .inl h,
    fun _ => id⟩
  trans s t u h h' := by
    obtain ⟨l, hl, hnd, hb⟩ := h.confs
    obtain ⟨l', hl', hnd', hb'⟩ := h'.confs
    refine ⟨h'.vms.trans h.vms, h'.events.trans h.events, h'.freed.trans h.freed, h'.socks.trans h.socks,
      h'.procs.trans h.procs, h'.log.trans h.log, h'.forced.trans h.forced,
      h'.exits.trans h.exits, Nat.le_trans h.next h'.next, ⟨l' ++ l, ?_, ?_, ?_⟩, ?_,
      fun x => h.faults x ∘ h'.faults x⟩
    · rw [hl', hl, List.append_assoc]
    · refine List.nodup_append.mpr ⟨hnd', hnd, fun x hx y hy hxy => ?_⟩
      have h1 := (hb' x hx).1
      have h2 := (hb y hy).2
      rw [hxy] at h1
      exact Nat.lt_irrefl _ (Nat.lt_of_lt_of_le h2 h1)
    · intro c hc
      rcases List.mem_append.mp hc with hc | hc
      · exact ⟨Nat.le_trans h.next (hb' c hc).1, (hb' c hc).2⟩
      · exact ⟨(hb c hc).1, Nat.lt_of_lt_of_le (hb c hc).2 h'.next⟩
    · intro c hc
      rcases h'.listed c hc with hc | hc
      · exact (h.listed c hc).imp_right h'.isSome
      · exact .inr hc

theorem ConfSide.wf (h : ConfSide s s') (hw : WF s) : WF s' := by
  obtain ⟨l, hl, hnd, hb⟩ := h.confs
  have hlt : ∀ {n : Nat}, n < s.next → n < s'.next := fun hn => Nat.lt_of_lt_of_le hn h.next
  have hold : ∀ c ∈ s.confs.map (·.addr), c < s.next := by
    intro c hc
    obtain ⟨e, he, rfl⟩ := List.mem_map.mp hc
    exact hw.confBound e he
  constructor
  · exact h.vms ▸ hw.vmNodup
  · exact fun v hv => hlt (hw.vmBound v (h.vms ▸ hv))
  · exact fun v hv => hlt (hw.serials v (h.vms ▸ hv))
  · exact fun v hv => h.isSome (hw.vmConf v (h.vms ▸ hv))
  · exact fun v hv c hvc => h.isSome (hw.newConf v (h.vms ▸ hv) c hvc)
  · rw [hl]
    refine List.nodup_append.mpr ⟨hnd, hw.confNodup, fun x hx y hy hxy => ?_⟩
    have h1 := (hb x hx).1
    rw [hxy] at h1
    exact Nat.lt_irrefl _ (Nat.lt_of_lt_of_le (hold y hy) h1)
  · intro e he
    have hmem : e.addr ∈ l ++ s.confs.map (·.addr) := hl ▸ List.mem_map_of_mem he
    rcases List.mem_append.mp hmem with hm | hm
    · exact (hb _ hm).2
    · exact hlt (hold _ hm)
  · intro c hc
    rcases h.listed c hc with hc | hc
    · exact h.isSome (hw.listed c hc)
    · exact hc
  · exact fun e he => hw.events e (h.events ▸ he)
  · exact ⟨by rw [h.events, h.freed]; exact hw.owned.nodup,
      fun x hx => hlt (hw.owned.bound x (by rwa [h.events, h.freed] at hx))⟩
  · intro e he a hd
    have := hw.eventVms e (h.events ▸ he) a hd
    simpa only [Daemon.vm?, h.vms] using this
  · exact h.procs ▸ hw.pids
  · exact fun p hp => hlt (hw.owners p (h.procs ▸ hp))
  · exact fun x hx a hxa => hlt (hw.logged x (h.log ▸ hx) a hxa)

theorem ConfSide.calm (h : ConfSide s s') : Calm s s' := fun hw =>
  ⟨⟨h.wf hw, SockKept.of_eq h.events h.socks h.next, h.next, .of_subset fun _ he => h.events ▸ he,
    fun _ => h.isSome, h.faults⟩, view_congr h.vms h.events h.procs h.log h.forced h.exits⟩

/-- A change of configuration entries that creates none. -/
theorem ConfSide.of_confs {confs : List ConfEntry} {faults : List Fault}
    (hc : confs.map (·.addr) = s.confs.map (·.addr)) (hf : ∀ x, .eventFree x ∈ faults → .eventFree x ∈ s.faults) :
    ConfSide s { s with confs := confs, faults := faults } :=
  ⟨rfl, rfl, rfl, rfl, rfl, rfl, rfl, rfl, Nat.le_refl _, ⟨[], hc, List.nodup_nil, by simp⟩, fun _ h => .inl h, hf⟩

theorem modConf_confs {c : Addr} {f : ConfEntry → ConfEntry} (hf : ∀ e, (f e).addr = e.addr) :
    (s.modConf c f).confs.map (·.addr) = s.confs.map (·.addr) :=
  Keyed.map_update (k := ConfEntry.addr) hf s.confs c

theorem setInstall_confSide (c : Addr) (x : Bool) : Keeps ConfSide (setInstall c x) :=
  .modify fun _ => .of_confs (modConf_confs fun _ => rfl) fun _ => id

theorem freeVmConfEntry_confSide (c : Addr) : Keeps ConfSide (freeVmConfEntry c) := by
  refine .modify fun s => ?_
  split
  · exact .of_confs (modConf_confs fun _ => rfl) fun _ => id
  · exact .of_confs rfl fun _ h => by simpa using h

theorem confListRemove_confSide (c : Addr) : Keeps ConfSide (confListRemove c) := by
  refine .modify fun s => ?_
  split
  · exact ⟨rfl, rfl, rfl, rfl, rfl, rfl, rfl, rfl, Nat.le_refl _, ⟨[], rfl, List.nodup_nil, by simp⟩,
      fun _ h => .inl (List.mem_of_mem_erase h), fun _ => id⟩
  · exact .of_confs rfl fun _ h => by simpa using h

theorem freeConfs_confSide (l : List Addr) : Keeps ConfSide (freeConfs l) := by
  induction l with
  | nil => exact .pure _
  | cons c rest ih => exact .bind (freeVmConfEntry_confSide c) fun _ => ih

/-- **The entries of a new list** have consecutive addresses. -/
theorem allocConfs_spec : ∀ (ls : List LoadedConf) {s s' : Daemon} {r : List Addr},
    allocConfs ls s = .ok (r, s') →
    r = List.range' s.next ls.length ∧
      s' = { s with
        next := s.next + ls.length
        confs := (((List.range' s.next ls.length).zip ls).map fun p => mkConfEntry p.1 p.2).reverse ++ s.confs }
  | [], s, s', r, h => by
    cases h
    exact ⟨rfl, rfl⟩
  | l :: rest, s, s', r, h => by
    obtain ⟨c, s1, h1, h⟩ := of_bind h
    cases h1
    obtain ⟨_, s2, h2, h⟩ := of_bind h
    cases h2
    obtain ⟨cs, s3, h3, h⟩ := of_bind h
    obtain ⟨rfl, rfl⟩ := pure_ok.mp h
    obtain ⟨hr, hs⟩ := allocConfs_spec rest h3
    have hlen : s.next + 1 + rest.length = s.next + (l :: rest).length := by
      rw [List.length_cons, Nat.add_assoc, Nat.add_comm 1]
    refine ⟨by rw [hr]; rfl, ?_⟩
    rw [hs]
    show ({ s with next := s.next + 1 + rest.length, confs := _ } : Daemon) = _
    rw [hlen]
    simp [List.range'_succ]

theorem allocConfs_confSide (ls : List LoadedConf) : Keeps ConfSide (allocConfs ls) := by
  intro s r s' h
  obtain ⟨rfl, rfl⟩ := allocConfs_spec ls h
  refine ⟨rfl, rfl, rfl, rfl, rfl, rfl, rfl, rfl, Nat.le_add_right _ _,
    ⟨(List.range' s.next ls.length).reverse, ?_, List.nodup_reverse.mpr (List.nodup_range' ..), ?_⟩,
    fun _ h => .inl h, fun _ => id⟩
  · have hmap : (((List.range' s.next ls.length).zip ls).map fun p => mkConfEntry p.1 p.2).map (·.addr) =
        List.range' s.next ls.length := by
      rw [List.map_map]
      exact List.map_fst_zip (by simp)
    rw [List.map_append, List.map_reverse, hmap]
  · intro c hc
    rw [List.mem_reverse, List.mem_range'_1] at hc
    exact hc

/-! ## Pointers to configurations -/

/-- Entries of `vm_list` are changed in fields that no view shows. -/
theorem calm_map (hf : ∀ v, (f v).addr = v.addr ∧ (f v).state = v.state ∧ (f v).pid = v.pid ∧ (f v).serial = v.serial)
    (hc : WF s → ∀ v ∈ s.vmList, (s.conf? (f v).conf).isSome)
    (hn : WF s → ∀ v ∈ s.vmList, ∀ c, (f v).newConf = some c → (s.conf? c).isSome) :
    Calm s { s with vmList := s.vmList.map f } := by
  intro hw
  have hvm : ∀ a, ({ s with vmList := s.vmList.map f } : Daemon).vm? a = (s.vm? a).map f := fun a =>
    Keyed.find?_map (k := VmEntry.addr) (fun v => (hf v).1) s.vmList a
  have haddr : (s.vmList.map f).map (·.addr) = s.vmList.map (·.addr) := by
    rw [List.map_map]
    exact List.map_congr_left fun v _ => (hf v).1
  refine ⟨⟨⟨?_, ?_, ?_, ?_, ?_, hw.confNodup, hw.confBound, hw.listed, hw.events,
    ⟨hw.owned.nodup, hw.owned.bound⟩, ?_, hw.pids, hw.owners, hw.logged⟩, ?_, Nat.le_refl _, .of_subset fun _ => id, fun _ => id, fun _ => id⟩,
    fun a => ?_⟩
  · rw [haddr]; exact hw.vmNodup
  · intro v hv
    obtain ⟨w, hwm, rfl⟩ := List.mem_map.mp hv
    rw [(hf w).1]
    exact hw.vmBound w hwm
  · intro v hv
    obtain ⟨w, hwm, rfl⟩ := List.mem_map.mp hv
    rw [(hf w).2.2.2]
    exact hw.serials w hwm
  · intro v hv
    obtain ⟨w, hwm, rfl⟩ := List.mem_map.mp hv
    exact hc hw w hwm
  · intro v hv c hvc
    obtain ⟨w, hwm, rfl⟩ := List.mem_map.mp hv
    exact hn hw w hwm c hvc
  · intro e he a hd
    rw [hvm, Option.isSome_map]
    exact hw.eventVms e he a hd
  · exact SockKept.of_eq rfl rfl (Nat.le_refl _)
  · simp only [Daemon.view, Daemon.vmOf, hvm]
    cases s.vm? a with
    | none => rfl
    | some v =>
      simp only [Option.map_some, Option.getD_some, (hf v).2.1, (hf v).2.2.1, (hf v).2.2.2]
      rfl

/-- The write of pointers of one entry. -/
theorem modVm_calm
    (hf : ∀ v, (f v).addr = v.addr ∧ (f v).state = v.state ∧ (f v).pid = v.pid ∧ (f v).serial = v.serial)
    (hc : ∀ v, (f v).conf = v.conf ∨ (s.conf? (f v).conf).isSome)
    (hn : ∀ v c, (f v).newConf = some c → v.newConf = some c ∨ (s.conf? c).isSome) :
    Calm s (s.modVm a f) := by
  refine calm_map (fun v => ?_) (fun hw v hv => ?_) fun hw v hv c hvc => ?_
  · split
    · exact hf v
    · exact ⟨rfl, rfl, rfl, rfl⟩
  · split
    · rcases hc v with h | h
      · rw [h]; exact hw.vmConf v hv
      · exact h
    · exact hw.vmConf v hv
  · split at hvc
    · rcases hn v c hvc with h | h
      · exact hw.newConf v hv c h
      · exact h
    · exact hw.newConf v hv c hvc

theorem clearNewConfs_calm : Keeps Calm clearNewConfs :=
  .modify fun _ => calm_map (fun _ => ⟨rfl, rfl, rfl, rfl⟩) (fun hw v hv => hw.vmConf v hv)
    fun _ _ _ _ h => by cases h

/-! ## Creation -/

/-- The state with a new entry. -/
def Daemon.withVm (s : Daemon) (c : Addr) (m : VmMethod) (i : Nat) : Daemon :=
  { s with tick := s.tick + 1, next := s.next + 1, vmList := mkVmEntry s.next c m i :: s.vmList }

/-- **`create_vm_entry`.** -/
theorem createVmEntry_spec {c : Addr} {r : Option Addr} (h : createVmEntry env c s = .ok (r, s')) :
    (r = none ∧ Calm s s' ∧ s'.rest = s.rest ∧ s'.vmList = s.vmList ∧
        ((s.conf? c).isSome → ∃ n, env.malloc n = false)) ∨
      (r = some s.next ∧ ∃ m i, s' = s.withVm c m i) := by
  obtain ⟨ok, s1, h1, h⟩ := of_bind h
  have k1 := (preserved (R := Apart) h1).calm
  cases h1
  by_cases hm : env.malloc s.tick = true
  · rw [if_neg (by simp [hm])] at h
    obtain ⟨a, s2, h2, h⟩ := of_bind h
    have k2 := (preserved (R := Apart) h2).calm
    cases h2
    replace h := get_bind h
    cases hmeth : s.methodOf c with
    | none =>
      have hmeth' : ({ s with tick := s.tick + 1, next := s.next + 1 } : Daemon).methodOf c = none := hmeth
      simp only [hmeth'] at h
      cases h
      refine .inl ⟨rfl, trans_of Calm k1 k2, rfl, rfl, fun hc => ?_⟩
      rw [← methodOf_isSome, hmeth] at hc
      cases hc
    | some mi =>
      obtain ⟨m, i⟩ := mi
      have hmeth' : ({ s with tick := s.tick + 1, next := s.next + 1 } : Daemon).methodOf c = some (m, i) := hmeth
      simp only [hmeth'] at h
      obtain ⟨_, s4, h4, h⟩ := of_bind h
      obtain ⟨rfl, rfl⟩ := pure_ok.mp h
      exact .inr ⟨rfl, m, i, set_ok.mp h4⟩
  · rw [if_pos (by simp [hm])] at h
    cases h
    exact .inl ⟨rfl, k1, rfl, rfl, fun _ => ⟨s.tick, Bool.eq_false_iff.mpr hm⟩⟩

section Create

variable {c : Addr} {m : VmMethod} {i n : Nat}

theorem vm?_withVm_of_ne (h : a ≠ s.next) : (s.withVm c m i).vm? a = s.vm? a := by
  simp [Daemon.vm?, Daemon.withVm, mkVmEntry, Ne.symm h]

theorem vm?_withVm_self : (s.withVm c m i).vm? s.next = some (mkVmEntry s.next c m i) := by
  simp [Daemon.vm?, Daemon.withVm, mkVmEntry]

theorem view_withVm_of_ne (h : a ≠ s.next) : (s.withVm c m i).view a = s.view a := by
  simp only [Daemon.view, Daemon.vmOf, vm?_withVm_of_ne h]
  rfl

theorem view_withVm_self (hw : WF s) :
    (s.withVm c m i).view s.next = { s.view s.next with state := some .terminate } := by
  have hnone : s.vm? s.next = none := by
    cases hv : s.vm? s.next with
    | none => rfl
    | some v => exact absurd (hw.lt_next hv) (Nat.lt_irrefl _)
  simp only [Daemon.view, Daemon.vmOf, vm?_withVm_self, hnone]
  rfl

theorem withVm_tidy (hw : WF s) (hc : (s.conf? c).isSome) : Tidy s (s.withVm c m i) := by
  have hlt : ∀ {k : Nat}, k < s.next → k < s.next + 1 := Nat.lt_succ_of_lt
  refine ⟨⟨?_, ?_, ?_, ?_, ?_, hw.confNodup, fun e he => hlt (hw.confBound e he), hw.listed, hw.events,
    ⟨hw.owned.nodup, fun x hx => hlt (hw.owned.bound x hx)⟩, ?_, hw.pids, fun p hp => hlt (hw.owners p hp),
    fun x hx a hxa => hlt (hw.logged x hx a hxa)⟩, SockKept.of_eq rfl rfl (Nat.le_succ _), Nat.le_succ _,
    .of_subset fun _ => id, fun _ => id, fun _ => id⟩
  · exact List.nodup_cons.mpr ⟨hw.next_free, hw.vmNodup⟩
  · intro v hv
    rcases List.mem_cons.mp hv with rfl | hv
    · exact Nat.lt_succ_self _
    · exact hlt (hw.vmBound v hv)
  · intro v hv
    rcases List.mem_cons.mp hv with rfl | hv
    · exact Nat.succ_pos _
    · exact hlt (hw.serials v hv)
  · intro v hv
    rcases List.mem_cons.mp hv with rfl | hv
    · exact hc
    · exact hw.vmConf v hv
  · intro v hv c' hvc
    rcases List.mem_cons.mp hv with rfl | hv
    · cases hvc
    · exact hw.newConf v hv c' hvc
  · intro e he a hd
    have h1 := hw.eventVms e he a hd
    have hne : a ≠ s.next := by
      obtain ⟨v, hv, rfl⟩ := vm?_isSome_iff.mp h1
      exact Nat.ne_of_lt (hw.vmBound v hv)
    rw [vm?_withVm_of_ne hne]
    exact h1

end Create

/-! ## Removal -/

/-- Dropping events. -/
theorem stopWaitingFor_tidy {fn : Event → Bool} (h : stopWaitingFor fn s = .ok (u, s')) (hw : WF s) : Tidy s s' := by
  have ho := stopWaitingFor_owned h hw.owned
  rw [of_modify h] at ho ⊢
  refine ⟨{ hw with
      events := fun e he => hw.events e (List.mem_filter.mp he).1
      owned := ho
      eventVms := fun e he => hw.eventVms e (List.mem_filter.mp he).1 }, ?_, Nat.le_refl _,
    .of_subset fun e he => (List.mem_filter.mp he).1, fun _ => id, fun _ => id⟩
  exact SockKept.of_data (fun e he _ _ => ⟨e, (List.mem_filter.mp he).1, rfl⟩) (fun _ => rfl) (Nat.le_refl _)

theorem vm?_remove_of_ne (h : s'.vmList = s.vmList.filter (·.addr != a)) (hb : b ≠ a) : s'.vm? b = s.vm? b := by
  rw [Daemon.vm?, h]
  exact Keyed.find?_filter_of_ne (k := VmEntry.addr) s.vmList hb

theorem vm?_remove_self (h : s'.vmList = s.vmList.filter (·.addr != a)) : s'.vm? a = none := by
  rw [Daemon.vm?, h]
  exact Keyed.find?_filter_self (k := VmEntry.addr) s.vmList a

/-- An entry that no event refers to may go. -/
theorem vmListRemove_tidy (h : vmListRemove a s = .ok (u, s'))
    (hno : ∀ e ∈ s.eventList, e.data ≠ .vm a) (hw : WF s) : Tidy s s' := by
  rw [of_modify h]
  have hsub : ∀ v ∈ s.vmList.filter (·.addr != a), v ∈ s.vmList := fun v hv => (List.mem_filter.mp hv).1
  refine ⟨⟨hw.vmNodup.sublist (List.filter_sublist.map _), fun v hv => hw.vmBound v (hsub v hv),
    fun v hv => hw.serials v (hsub v hv), fun v hv => hw.vmConf v (hsub v hv),
    fun v hv => hw.newConf v (hsub v hv), hw.confNodup, hw.confBound, hw.listed, hw.events,
    ⟨hw.owned.nodup, hw.owned.bound⟩, fun e he b hd => ?_, hw.pids, hw.owners, hw.logged⟩,
    SockKept.of_eq rfl rfl (Nat.le_refl _), Nat.le_refl _, .of_subset fun _ => id, fun _ => id, fun _ => id⟩
  have hba : b ≠ a := fun hba => hno e he (hba ▸ hd)
  rw [vm?_remove_of_ne (s := s) rfl hba]
  exact hw.eventVms e he b hd

/-- **The entry and its events go.** The daemon takes the entry out of `vm_list` first and drops the events
    later; in between it only works on configurations, so the order does not matter. -/
theorem forget_spec {t1 t2 : Daemon} {u' : Unit} (hw : WF s) (h1 : vmListRemove a s = .ok (u, t1))
    (h2 : ConfSide t1 t2) (h3 : stopWaitingFor (hasData (.vm a)) t2 = .ok (u', s')) :
    Tidy s s' ∧ s'.view a = (s.view a).gone ∧ ∀ b, b ≠ a → s'.view b = s.view b := by
  -- the same in the other order
  obtain ⟨d, hd⟩ : ∃ d, stopWaitingFor (hasData (.vm a)) s = .ok ((), d) := ⟨_, rfl⟩
  obtain ⟨r, hr⟩ : ∃ r, vmListRemove a d = .ok ((), r) := ⟨_, rfl⟩
  have hdd := of_modify hd
  have hrr := of_modify hr
  have ht1 := of_modify h1
  have hs' := of_modify h3
  have hno : ∀ e ∈ d.eventList, e.data ≠ .vm a := by
    intro e he hda
    rw [hdd] at he
    have := (List.mem_filter.mp he).2
    simp [hasData, hda] at this
  have td : Tidy s d := stopWaitingFor_tidy hd hw
  have tr : Tidy d r := vmListRemove_tidy hr hno td.wf
  have hc : ConfSide r s' := by
    rw [ht1] at h2
    rw [hs', hrr, hdd]
    refine ⟨h2.vms, congrArg (List.filter _) h2.events, ?_, h2.socks, h2.procs, h2.log, h2.forced, h2.exits, h2.next,
      h2.confs, h2.listed, h2.faults⟩
    show (t2.eventList.filter _).map _ ++ t2.freedEvents = (s.eventList.filter _).map _ ++ s.freedEvents
    rw [h2.events, h2.freed]
  obtain ⟨tc, hview⟩ := hc.calm tr.wf
  have hvm : r.vmList = s.vmList.filter (·.addr != a) := by rw [hrr, hdd]
  have hev : r.eventList = s.eventList.filter fun e => !hasData (.vm a) e := by rw [hrr, hdd]
  have hp : r.procs = s.procs := by rw [hrr, hdd]
  have hl : r.log = s.log := by rw [hrr, hdd]
  have hf : r.forced = s.forced := by rw [hrr, hdd]
  have hx : r.exits = s.exits := by rw [hrr, hdd]
  refine ⟨(td.trans tr).trans tc, ?_, fun b hb => ?_⟩
  · have ht : r.eventList.filter (·.isTimerOf a) = [] := by
      rw [List.filter_eq_nil_iff]
      intro e he hc
      exact hno e (by rw [hrr] at he; exact he) (Event.isTimerOf_iff.mp hc).1
    have hwt : r.eventList.filter (·.isWaitOf a) = [] := by
      rw [List.filter_eq_nil_iff]
      intro e he hc
      exact hno e (by rw [hrr] at he; exact he) (Event.isWaitOf_iff.mp hc).1
    rw [hview]
    simp only [Daemon.view, Daemon.vmOf, vm?_remove_self hvm, Daemon.timersOf, ht, hwt, hp, hl, hf, hx]
    rfl
  · have hkeep : ∀ e : Event, e.data = .vm b → (!hasData (.vm a) e) = true := fun e he => by
      simp [hasData, he, hb]
    have ht : r.eventList.filter (·.isTimerOf b) = s.eventList.filter (·.isTimerOf b) := by
      rw [hev, List.filter_filter]
      refine List.filter_congr fun e _ => ?_
      cases he : e.isTimerOf b with
      | false => rfl
      | true => simp [hkeep e (Event.isTimerOf_iff.mp he).1]
    have hwt : r.eventList.filter (·.isWaitOf b) = s.eventList.filter (·.isWaitOf b) := by
      rw [hev, List.filter_filter]
      refine List.filter_congr fun e _ => ?_
      cases he : e.isWaitOf b with
      | false => rfl
      | true => simp [hkeep e (Event.isWaitOf_iff.mp he).1]
    rw [hview]
    simp only [Daemon.view, Daemon.vmOf, vm?_remove_of_ne hvm hb, Daemon.timersOf, ht, hwt, hp, hl, hf, hx]

end Bmd
