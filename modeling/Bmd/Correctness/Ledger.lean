import Bmd.Correctness.Runs

/-!
# `Correctness.Ledger` — who holds a configuration entry

A `vm_conf_entry` is linked in `vm_conf_list`, held by a `vm_entry`, or both. The `Ledger` of a state records
the two and which entries are freed. Between dispatches it should be `Sound`: a VM holds an entry of its own,
which is linked until the VM is marked for removal, and nothing that is linked or held is freed. Three pieces
of code change the ledger: the exit of a VM in `REMOVE`, `search_and_replace_vm_conf`, and a reload.
-/

namespace Bmd

open Lib Lib.Prog

/-! ## Ledgers -/

/-- What a VM holds: `VM_CONF`, `VM_NEWCONF`, and whether it is in `REMOVE`. -/
@[ext] structure Stake where
  conf : Addr
  new : Option Addr
  leaving : Bool

/-- The configuration that the second pass of a reload leaves the VM with. -/
def Stake.next (k : Stake) : Addr := k.new.getD k.conf

/-- A configuration entry: what it was loaded as, what it is now apart from `install`, and whether it is freed. -/
structure Cell where
  loaded : LoadedConf
  conf : VmConf
  plData : List PluginData
  freed : Bool

/-- The cell of an entry. -/
def ConfEntry.cell (e : ConfEntry) : Cell := ⟨e.loaded, { e.conf with install := false }, e.plData, e.freed⟩

/-- The cell that `load_config_file` makes. -/
def LoadedConf.cell (l : LoadedConf) : Cell := ⟨l, { l.conf with install := false }, l.plData, false⟩

/-- Nothing but `install` changed since the entry was loaded. -/
def Cell.Faithful (e : Cell) : Prop :=
  e.conf = { e.loaded.conf with install := false } ∧ e.plData = e.loaded.plData

/-- The holders of configuration entries. -/
@[ext] structure Ledger where
  stake : Addr → Option Stake
  linked : List Addr
  cell : Addr → Option Cell
  applied : List String
  /-- An entry that was not linked was unlinked, or a freed one was freed. -/
  spoiled : Bool

namespace Ledger

variable (l : Ledger)

/-- The entry exists and is not freed. -/
def live (c : Addr) : Bool := (l.cell c).any (!·.freed)

/-- The name in an entry. -/
def name (c : Addr) : Option String := (l.cell c).map (·.conf.name)

/-- The VM at `a` gets or loses its stake. -/
def hold (a : Addr) (k : Option Stake) : Ledger := { l with stake := Function.update l.stake a k }

/-- `LIST_REMOVE`. -/
def unlink (c : Addr) : Ledger :=
  if c ∈ l.linked then { l with linked := l.linked.erase c } else { l with spoiled := true }

/-- `LIST_INSERT_HEAD`. -/
def link (c : Addr) : Ledger := { l with linked := c :: l.linked }

/-- `free_vm_conf_entry`. -/
def free (c : Addr) : Ledger :=
  if l.live c then { l with cell := Function.update l.cell c ((l.cell c).map ({ · with freed := true })) }
  else { l with spoiled := true }

end Ledger

/-- The fault is about a configuration entry. -/
def Fault.ofConf : Fault → Bool
  | .confRemove _ | .confFree _ => true
  | _ => false

def Daemon.stake (s : Daemon) (a : Addr) : Option Stake :=
  (s.vm? a).map fun v => ⟨v.conf, v.newConf, v.state == .remove⟩

def Daemon.cell (s : Daemon) (c : Addr) : Option Cell := (s.conf? c).map (·.cell)

/-- The ledger of a state. -/
def Daemon.ledger (s : Daemon) : Ledger where
  stake := s.stake
  linked := s.vmConfList
  cell := s.cell
  applied := s.applied
  spoiled := s.faults.any (·.ofConf)

variable {s s' t : Daemon} {a b c : Addr} {env : Env} {v : VmEntry} {u : Unit} {ls : List LoadedConf}
  {new : List Addr} {x : Addr}

theorem stake_of_vm? (h : s.vm? a = some v) : s.ledger.stake a = some ⟨v.conf, v.newConf, v.state == .remove⟩ := by
  show (s.vm? a).map _ = _
  rw [h]
  rfl

theorem vm?_of_stake {k : Stake} (h : s.ledger.stake a = some k) :
    ∃ v, s.vm? a = some v ∧ k = ⟨v.conf, v.newConf, v.state == .remove⟩ := by
  obtain ⟨v, hv, rfl⟩ := Option.map_eq_some_iff.mp h
  exact ⟨v, hv, rfl⟩

theorem stake_eq_none : s.ledger.stake a = none ↔ s.vm? a = none := Option.map_eq_none_iff

/-! ## What leaves the ledger alone -/

/-- The cells are in the core of a state. -/
theorem cell_of_core (h : s'.core = s.core) : s'.cell = s.cell := by
  funext c
  have hfind : (s'.conf? c).map (·.setInstall false) = (s.conf? c).map (·.setInstall false) := by
    rw [← conf?_setInstall, ← conf?_setInstall, h]
  have hmap := congrArg (Option.map ConfEntry.cell) hfind
  rw [Option.map_map, Option.map_map] at hmap
  exact hmap

theorem ledger_of_core (h : s'.core = s.core) {stake : Addr → Option Stake} (hst : ∀ a, s'.stake a = stake a) :
    s'.ledger = { s.ledger with stake := stake } := by
  have hf : s'.faults = s.faults := (congrArg Daemon.faults h :)
  apply Ledger.ext
  · exact funext hst
  · exact (congrArg Daemon.vmConfList h :)
  · exact cell_of_core h
  · exact (congrArg Daemon.applied h :)
  · show s'.faults.any _ = s.faults.any _
    rw [hf]

theorem ledger_hold (h : s'.core = s.core) (hst : ∀ x, x ≠ a → s'.stake x = s.stake x) :
    s'.ledger = s.ledger.hold a (s'.stake a) := by
  refine ledger_of_core h fun x => ?_
  by_cases hx : x = a
  · rw [hx, Function.update_self]
  · rw [Function.update_of_ne hx]
    exact hst x hx

theorem Near.stake (h : Near b s s') (hx : x ≠ b) : s'.stake x = s.stake x := by
  rw [Daemon.stake, h.vm x hx, Daemon.stake]

/-- Work for a VM that neither enters nor leaves `REMOVE`. -/
theorem Within.ledger (h : Within b s s') (hl : (s'.view b).Leaving ↔ (s.view b).Leaving) : s'.ledger = s.ledger := by
  refine ledger_of_core h.core fun a => ?_
  by_cases ha : a = b
  · subst ha
    cases hv : s.vm? a with
    | none =>
      have hnone := h.toTouch.link
      rw [hv] at hnone
      rw [Daemon.stake, Daemon.stake, hv, Option.map_eq_none_iff.mp hnone]
    | some v =>
      obtain ⟨v', hv', hc, hn⟩ := h.vm?_self hv
      rw [View.Leaving, View.Leaving, view_state hv, view_state hv'] at hl
      have hst : (v'.state == .remove) = (v.state == .remove) := by
        rw [Bool.eq_iff_iff, beq_iff_eq, beq_iff_eq]
        simpa using hl
      rw [Daemon.stake, Daemon.stake, hv, hv', Option.map_some, Option.map_some, hc, hn, hst]
  · exact h.near.stake ha

theorem AsideFrom.ledger (h : AsideFrom s s') : s'.ledger = s.ledger := by
  have hv : s'.vmList = s.vmList := (congrArg Daemon.vmList h.vmSide :)
  have hc : s'.confs = s.confs := (congrArg Daemon.confs h.vmSide :)
  have hl : s'.vmConfList = s.vmConfList := (congrArg Daemon.vmConfList h.vmSide :)
  have ha : s'.applied = s.applied := (congrArg Daemon.applied h.vmSide :)
  obtain ⟨l, hf, hd⟩ := h.faults
  apply Ledger.ext
  · funext a
    show s'.stake a = s.stake a
    simp only [Daemon.stake, Daemon.vm?, hv]
  · exact hl
  · funext c
    show s'.cell c = s.cell c
    simp only [Daemon.cell, Daemon.conf?, hc]
  · exact ha
  · show s'.faults.any _ = s.faults.any _
    rw [hf, List.any_append]
    have hno : l.any (·.ofConf) = false := by
      rw [List.any_eq_false]
      intro f hmem
      obtain ⟨x, rfl⟩ := hd f hmem
      exact Bool.false_ne_true
    rw [hno, Bool.false_or]

/-! ## What changes it -/

theorem conf?_modConf {f : ConfEntry → ConfEntry} (hf : ∀ e, (f e).addr = e.addr) (x : Addr) :
    (s.modConf c f).conf? x = if x = c then (s.conf? c).map f else s.conf? x := by
  split
  · next hx =>
    subst hx
    exact Keyed.find?_update_self (k := ConfEntry.addr) hf s.confs x
  · next hx => exact Keyed.find?_update_of_ne (k := ConfEntry.addr) hf s.confs hx

theorem freeVmConfEntry_ledger (h : freeVmConfEntry c s = .ok (u, s')) : s'.ledger = s.ledger.free c := by
  have hs' := of_modify h
  have hlive : s.ledger.live c = (s.conf? c).any (!·.freed) := by
    show (s.cell c).any _ = _
    rw [Daemon.cell]
    cases s.conf? c <;> rfl
  by_cases hl : (s.conf? c).any (!·.freed) = true
  · rw [if_pos hl] at hs'
    rw [hs', Ledger.free, hlive, if_pos hl]
    refine Ledger.ext rfl rfl (funext fun x => ?_) rfl rfl
    show (s.modConf c _).cell x = Function.update s.cell c ((s.cell c).map _) x
    have hm := conf?_modConf (s := s) (c := c) (f := fun e => { e with freed := true }) (fun _ => rfl) x
    rw [Daemon.cell, hm]
    by_cases hx : x = c
    · rw [if_pos hx, hx, Function.update_self, Daemon.cell, Option.map_map, Option.map_map]
      rfl
    · rw [if_neg hx, Function.update_of_ne hx, Daemon.cell]
  · rw [if_neg hl] at hs'
    rw [hs', Ledger.free, hlive, if_neg hl]
    rfl

theorem confListRemove_ledger (h : confListRemove c s = .ok (u, s')) : s'.ledger = s.ledger.unlink c := by
  have hs' := of_modify h
  by_cases hc : c ∈ s.vmConfList
  · rw [if_pos hc] at hs'
    rw [hs', Ledger.unlink, if_pos (show c ∈ s.ledger.linked from hc)]
    rfl
  · rw [if_neg hc] at hs'
    rw [hs', Ledger.unlink, if_neg (show ¬c ∈ s.ledger.linked from hc)]
    rfl

theorem vmListRemove_ledger (h : vmListRemove a s = .ok (u, s')) : s'.ledger = s.ledger.hold a none := by
  have hs' := of_modify h
  have hvm : ∀ x, s'.vm? x = if x = a then none else s.vm? x := by
    intro x
    rw [hs']
    split
    · next hx =>
      subst hx
      exact Keyed.find?_filter_self (k := VmEntry.addr) s.vmList x
    · next hx => exact Keyed.find?_filter_of_ne (k := VmEntry.addr) s.vmList hx
  have hself : s'.stake a = none := by rw [Daemon.stake, hvm, if_pos rfl]; rfl
  rw [← hself]
  refine ledger_hold (by rw [hs']; rfl) fun x hx => ?_
  rw [Daemon.stake, hvm, if_neg hx, Daemon.stake]

theorem stopWaitingFor_ledger {fn : Event → Bool} (h : stopWaitingFor fn s = .ok (u, s')) : s'.ledger = s.ledger := by
  rw [of_modify h]
  rfl

theorem modVm_ledger {f : VmEntry → VmEntry} (hf : ∀ v, (f v).addr = v.addr) (hv : s.vm? a = some v)
    (h : modVm a f s = .ok (u, s')) :
    s'.ledger = s.ledger.hold a (some ⟨(f v).conf, (f v).newConf, (f v).state == .remove⟩) := by
  have hv' := modVm_lookup h hf hv
  have hs' := of_modify h
  have hself : s'.stake a = some ⟨(f v).conf, (f v).newConf, (f v).state == .remove⟩ := by
    rw [Daemon.stake, hv']
    rfl
  rw [← hself]
  refine ledger_hold (by rw [hs']; rfl) fun x hx => ?_
  rw [hs']
  exact (modVm_near hf).stake hx

/-- New entries, as `load_config_file` makes them. -/
structure Ledger.Loads (new : List Addr) (ls : List LoadedConf) (l l' : Ledger) : Prop where
  stake : l'.stake = l.stake
  linked : l'.linked = l.linked
  applied : l'.applied = l.applied
  spoiled : l'.spoiled = l.spoiled
  nodup : new.Nodup
  fresh : ∀ c ∈ new, l.cell c = none
  old : ∀ c, c ∉ new → l'.cell c = l.cell c
  cells : new.map l'.cell = ls.map fun x => some x.cell

/-- What was loaded is faithful. -/
theorem Ledger.Loads.faithful {l l' : Ledger} (h : l.Loads new ls l')
    (hl : ∀ c e, l.cell c = some e → e.Faithful) : ∀ c e, l'.cell c = some e → e.Faithful := by
  intro c e he
  by_cases hc : c ∈ new
  · have hmem : l'.cell c ∈ ls.map fun x => some x.cell := h.cells ▸ List.mem_map_of_mem hc
    obtain ⟨x, -, hx⟩ := List.mem_map.mp hmem
    rw [he] at hx
    cases hx
    exact ⟨rfl, rfl⟩
  · rw [h.old c hc] at he
    exact hl c e he

theorem allocConfs_ledger (hw : WF s) (h : allocConfs ls s = .ok (new, s')) : s.ledger.Loads new ls s'.ledger := by
  have hw' : WF s' := (allocConfs_confSide ls _ _ _ h).wf hw
  obtain ⟨rfl, hs'⟩ := allocConfs_spec ls h
  have hconfs : s'.confs = (((List.range' s.next ls.length).zip ls).map fun p => mkConfEntry p.1 p.2).reverse ++
      s.confs := by rw [hs']
  have hrange : ∀ c ∈ List.range' s.next ls.length, s.next ≤ c := fun c hc => (List.mem_range'_1.mp hc).1
  refine ⟨by rw [hs']; rfl, by rw [hs']; rfl, by rw [hs']; rfl, by rw [hs']; rfl, List.nodup_range' .., ?_, ?_, ?_⟩
  · intro c hc
    refine Option.map_eq_none_iff.mpr (List.find?_eq_none.mpr fun e he heq => ?_)
    have hlt := hw.confBound e he
    rw [eq_of_beq heq] at hlt
    exact Nat.lt_irrefl _ (Nat.lt_of_lt_of_le hlt (hrange c hc))
  · intro c hc
    -- none of the new entries is at this address
    have hnone : (((List.range' s.next ls.length).zip ls).map fun p => mkConfEntry p.1 p.2).reverse.find?
        (·.addr == c) = none := by
      refine List.find?_eq_none.mpr fun e he heq => hc ?_
      obtain ⟨p, hp, rfl⟩ := List.mem_map.mp (List.mem_reverse.mp he)
      rw [← eq_of_beq heq]
      exact (List.of_mem_zip hp).1
    show (s'.confs.find? (·.addr == c)).map _ = (s.confs.find? (·.addr == c)).map _
    rw [hconfs, List.find?_append, hnone, Option.none_or]
  · have hfst : ((List.range' s.next ls.length).zip ls).map Prod.fst = List.range' s.next ls.length :=
      List.map_fst_zip (by simp)
    have hsnd : ((List.range' s.next ls.length).zip ls).map Prod.snd = ls := List.map_snd_zip (by simp)
    have hcell : ∀ p ∈ (List.range' s.next ls.length).zip ls,
        s'.ledger.cell p.1 = some p.2.cell := by
      intro p hp
      have hmem : mkConfEntry p.1 p.2 ∈ s'.confs := by
        rw [hconfs]
        exact List.mem_append_left _ (List.mem_reverse.mpr (List.mem_map_of_mem hp))
      show (s'.conf? p.1).map _ = _
      rw [show s'.conf? p.1 = some (mkConfEntry p.1 p.2) from hw'.conf?_of_mem hmem]
      rfl
    calc (List.range' s.next ls.length).map s'.ledger.cell
        = (((List.range' s.next ls.length).zip ls).map Prod.fst).map s'.ledger.cell := by rw [hfst]
      _ = ((List.range' s.next ls.length).zip ls).map fun p => s'.ledger.cell p.1 := List.map_map ..
      _ = ((List.range' s.next ls.length).zip ls).map fun p => some p.2.cell :=
        List.map_congr_left hcell
      _ = (((List.range' s.next ls.length).zip ls).map Prod.snd).map fun x => some x.cell :=
        by rw [List.map_map]; rfl
      _ = ls.map fun x => some x.cell := by rw [hsnd]

/-! ## The invariant between dispatches -/

namespace Ledger

variable {l l' : Ledger} {d : Prop} {k m : Stake}

/-- The VMs differ in what `f` says about their stakes. -/
def Distinct {γ : Type} (f : Stake → γ) (l : Ledger) : Prop :=
  ∀ a b k m, l.stake a = some k → l.stake b = some m → f k = f m → a = b

/-- **The invariant.** With `d`, every configuration that was loaded had distinct names; then the VMs are those of
    the last configuration applied, and those that are leaving. -/
structure Sound (d : Prop) (l : Ledger) : Prop where
  clean : l.spoiled = false
  nodup : l.linked.Nodup
  live : ∀ c ∈ l.linked, l.live c = true
  stays : ∀ a k, l.stake a = some k → k.leaving = false → k.conf ∈ l.linked
  leaves : ∀ a k, l.stake a = some k → k.leaving = true → k.conf ∉ l.linked ∧ l.live k.conf = true
  inj : l.Distinct (·.conf)
  names : d → l.Distinct fun k => l.name k.conf
  cover : d → ∀ c ∈ l.linked, ∃ a k, l.stake a = some k ∧ k.conf = c
  applied : d → ∀ n, n ∈ l.applied ↔ ∃ c ∈ l.linked, l.name c = some n

theorem Sound.live_conf (h : l.Sound d) (hk : l.stake a = some k) : l.live k.conf = true := by
  cases hl : k.leaving with
  | false => exact h.live _ (h.stays a k hk hl)
  | true => exact (h.leaves a k hk hl).2

/-! ### Single operations -/

theorem hold_stake_of_ne {o : Option Stake} (h : x ≠ a) : (l.hold a o).stake x = l.stake x :=
  Function.update_of_ne h ..

theorem hold_stake_self {o : Option Stake} : (l.hold a o).stake a = o := Function.update_self ..

/-- A stake after the VM at `a` lost its own. -/
theorem hold_none (h : (l.hold a none).stake x = some k) : x ≠ a ∧ l.stake x = some k := by
  by_cases hx : x = a
  · subst hx
    rw [hold_stake_self] at h
    cases h
  · exact ⟨hx, by rwa [hold_stake_of_ne hx] at h⟩

/-- A stake after the VM at `a` got a new one. -/
theorem hold_some (h : (l.hold a (some m)).stake x = some k) : (x = a ∧ k = m) ∨ (x ≠ a ∧ l.stake x = some k) := by
  by_cases hx : x = a
  · subst hx
    rw [hold_stake_self] at h
    exact .inl ⟨rfl, (Option.some.inj h).symm⟩
  · exact .inr ⟨hx, by rwa [hold_stake_of_ne hx] at h⟩

section Distinct

variable {γ : Type} {f : Stake → γ}

theorem Distinct.of_stake (h : l.Distinct f) (hs : l'.stake = l.stake) : l'.Distinct f := by
  rw [Distinct, hs]
  exact h

theorem Distinct.hold_none (h : l.Distinct f) : (l.hold a none).Distinct f := fun x y m n hm hn =>
  h x y m n (Ledger.hold_none hm).2 (Ledger.hold_none hn).2

theorem Distinct.hold_some (h : l.Distinct f) (hm : ∀ x n, x ≠ a → l.stake x = some n → f n ≠ f m) :
    (l.hold a (some m)).Distinct f := by
  intro x y n p hn hp heq
  rcases Ledger.hold_some hn with ⟨rfl, rfl⟩ | ⟨hx, hnx⟩ <;> rcases Ledger.hold_some hp with ⟨rfl, rfl⟩ | ⟨hy, hpy⟩
  · rfl
  · exact (hm y p hy hpy heq.symm).elim
  · exact (hm x n hx hnx heq).elim
  · exact h x y n p hnx hpy heq

/-- The VM at `a` is not told apart by something else than before. -/
theorem Distinct.hold_same (h : l.Distinct f) (hk : l.stake a = some k) (hf : f m = f k) :
    (l.hold a (some m)).Distinct f :=
  h.hold_some fun x n hx hn heq => hx (h x a n k hn hk (heq.trans hf))

end Distinct

theorem unlink_of_mem (h : c ∈ l.linked) : l.unlink c = { l with linked := l.linked.erase c } := if_pos h

/-- What freeing an entry that is live does. -/
structure Frees (c : Addr) (l l' : Ledger) : Prop where
  stake : l'.stake = l.stake
  linked : l'.linked = l.linked
  applied : l'.applied = l.applied
  spoiled : l'.spoiled = l.spoiled
  name : l'.name = l.name
  live : ∀ x, x ≠ c → l'.live x = l.live x

theorem free_frees (h : l.live c = true) : Frees c l (l.free c) := by
  rw [free, if_pos h]
  refine ⟨rfl, rfl, rfl, rfl, funext fun x => ?_, fun x hx => ?_⟩
  · by_cases hx : x = c
    · subst hx
      simp only [name, Function.update_self, Option.map_map]
      rfl
    · simp only [name, Function.update_of_ne hx]
  · simp only [Ledger.live, Function.update_of_ne hx]

/-- New entries are added to the heap. -/
theorem Sound.loads (h : l.Sound d) (hl : l.Loads new ls l') : l'.Sound d := by
  have hcell : ∀ {x : Addr}, l.live x = true → l'.cell x = l.cell x := by
    intro x hx
    refine hl.old x fun hmem => ?_
    rw [Ledger.live, hl.fresh x hmem] at hx
    cases hx
  have hlive : ∀ {x : Addr}, l.live x = true → l'.live x = true := fun hx => by
    rw [Ledger.live, hcell hx]
    exact hx
  have hname : ∀ {x : Addr}, l.live x = true → l'.name x = l.name x := fun hx => by
    rw [name, hcell hx, name]
  refine ⟨hl.spoiled ▸ h.clean, hl.linked ▸ h.nodup, ?_, ?_, ?_, ?_, ?_, ?_, ?_⟩
  · rw [hl.linked]
    exact fun c hc => hlive (h.live c hc)
  · rw [hl.stake, hl.linked]
    exact h.stays
  · rw [hl.stake, hl.linked]
    exact fun a k hk hlv => ⟨(h.leaves a k hk hlv).1, hlive (h.leaves a k hk hlv).2⟩
  · exact h.inj.of_stake hl.stake
  · intro hd a b k m hk hm hn
    rw [hl.stake] at hk hm
    dsimp only at hn
    rw [hname (h.live_conf hk), hname (h.live_conf hm)] at hn
    exact h.names hd a b k m hk hm hn
  · rw [hl.stake, hl.linked]
    exact h.cover
  · rw [hl.linked, hl.applied]
    intro hd n
    rw [h.applied hd n]
    constructor
    · rintro ⟨c, hc, hn⟩
      exact ⟨c, hc, by rw [hname (h.live c hc), hn]⟩
    · rintro ⟨c, hc, hn⟩
      exact ⟨c, hc, by rw [← hname (h.live c hc), hn]⟩

/-- An entry that is neither linked nor held is freed. -/
theorem Sound.frees (h : l.Sound d) (hf : Frees c l l') (hc : c ∉ l.linked)
    (hheld : ∀ a k, l.stake a = some k → k.conf ≠ c) : l'.Sound d := by
  refine ⟨hf.spoiled ▸ h.clean, hf.linked ▸ h.nodup, ?_, ?_, ?_, ?_, ?_, ?_, ?_⟩
  · rw [hf.linked]
    intro x hx
    rw [hf.live x fun heq => hc (heq ▸ hx)]
    exact h.live x hx
  · rw [hf.stake, hf.linked]
    exact h.stays
  · rw [hf.stake, hf.linked]
    intro a k hk hlv
    rw [hf.live _ (hheld a k hk)]
    exact h.leaves a k hk hlv
  · exact h.inj.of_stake hf.stake
  · rw [hf.name]
    exact fun hd => (h.names hd).of_stake hf.stake
  · rw [hf.stake, hf.linked]
    exact h.cover
  · rw [hf.linked, hf.applied, hf.name]
    exact h.applied

/-- A VM that is leaving is gone. -/
theorem Sound.gone (h : l.Sound d) (hk : l.stake a = some k) (hl : k.leaving = true) :
    ((l.hold a none).free k.conf).Sound d := by
  obtain ⟨hnot, hlive⟩ := h.leaves a k hk hl
  have hs : (l.hold a none).Sound d := by
    refine ⟨h.clean, h.nodup, h.live, fun x m hm => h.stays x m (hold_none hm).2,
      fun x m hm => h.leaves x m (hold_none hm).2, h.inj.hold_none, fun hd => (h.names hd).hold_none,
      fun hd c hc => ?_, h.applied⟩
    obtain ⟨x, m, hm, rfl⟩ := h.cover hd c hc
    have hx : x ≠ a := by
      rintro rfl
      rw [hm] at hk
      cases hk
      exact hnot hc
    exact ⟨x, m, by rwa [hold_stake_of_ne hx], rfl⟩
  refine hs.frees (free_frees hlive) hnot fun x m hm heq => ?_
  obtain ⟨hx, hm⟩ := hold_none hm
  exact hx (h.inj x a m k hm hk heq)

/-- A VM that stays gets another configuration with the same name. -/
theorem Sound.replace (h : l.Sound d) (hk : l.stake a = some k) (hl : k.leaving = false) (hc : c ∉ l.linked)
    (hlive : l.live c = true) (hheld : ∀ x m, l.stake x = some m → m.conf ≠ c) (hn : l.name c = l.name k.conf) :
    ((((l.unlink k.conf).link c).free k.conf).hold a (some { k with conf := c })).Sound d := by
  have hmem := h.stays a k hk hl
  have hne : c ≠ k.conf := fun heq => hheld a k hk heq.symm
  have hf := free_frees (l := (l.unlink k.conf).link c) (c := k.conf) (by
    rw [unlink_of_mem hmem]
    exact h.live _ hmem)
  obtain ⟨p, hp⟩ : ∃ p, ((l.unlink k.conf).link c).free k.conf = p := ⟨_, rfl⟩
  rw [hp] at hf ⊢
  rw [unlink_of_mem hmem] at hf
  -- the fields of the ledger before the stake is written
  have hstake : p.stake = l.stake := hf.stake
  have hlinked : p.linked = c :: l.linked.erase k.conf := hf.linked
  have hname : p.name = l.name := hf.name
  have hmemp : ∀ x, x ∈ p.linked ↔ x = c ∨ (x ∈ l.linked ∧ x ≠ k.conf) := by
    intro x
    rw [hlinked, List.mem_cons, h.nodup.mem_erase_iff, and_comm]
  have hother : ∀ {x m}, x ≠ a → l.stake x = some m → m.conf ≠ k.conf := fun hx hm heq =>
    hx (h.inj _ a _ k hm hk heq)
  refine ⟨hf.spoiled.trans h.clean, ?_, ?_, ?_, ?_, ?_, ?_, ?_, ?_⟩
  · show p.linked.Nodup
    rw [hlinked]
    exact List.nodup_cons.mpr ⟨fun hx => hc (List.mem_of_mem_erase hx), h.nodup.erase _⟩
  · intro x hx
    show p.live x = true
    rcases (hmemp x).mp hx with rfl | ⟨hx, hxk⟩
    · rw [hf.live _ hne]
      exact hlive
    · rw [hf.live _ hxk]
      exact h.live x hx
  · intro x m hm hml
    show m.conf ∈ p.linked
    rw [hmemp]
    rcases hold_some hm with ⟨rfl, rfl⟩ | ⟨hx, hm⟩
    · exact .inl rfl
    · rw [hstake] at hm
      exact .inr ⟨h.stays x m hm hml, hother hx hm⟩
  · intro x m hm hml
    show m.conf ∉ p.linked ∧ p.live m.conf = true
    rcases hold_some hm with ⟨rfl, rfl⟩ | ⟨hx, hm⟩
    · have hml' : k.leaving = true := hml
      rw [hl] at hml'
      cases hml'
    · rw [hstake] at hm
      obtain ⟨hnot, hlv⟩ := h.leaves x m hm hml
      refine ⟨fun hx' => ?_, by rw [hf.live _ (hother hx hm)]; exact hlv⟩
      rcases (hmemp _).mp hx' with heq | ⟨hx', -⟩
      · exact hheld x m hm heq
      · exact hnot hx'
  · exact (h.inj.of_stake hstake).hold_some fun x m _ hm => hheld x m (hstake ▸ hm)
  · intro hd
    have hnames : p.Distinct fun m => p.name m.conf := by
      rw [hname]
      exact (h.names hd).of_stake hstake
    refine hnames.hold_same (k := k) (hstake ▸ hk) ?_
    rw [hname]
    exact hn
  · intro hd x hx
    rcases (hmemp x).mp hx with rfl | ⟨hx, hxk⟩
    · exact ⟨a, _, hold_stake_self, rfl⟩
    · obtain ⟨y, m, hm, rfl⟩ := h.cover hd x hx
      have hy : y ≠ a := by
        rintro rfl
        rw [hm] at hk
        cases hk
        exact hxk rfl
      exact ⟨y, m, by rw [hold_stake_of_ne hy, hstake]; exact hm, rfl⟩
  · intro hd n
    show n ∈ p.applied ↔ ∃ x ∈ p.linked, p.name x = some n
    rw [hf.applied, hname]
    show n ∈ l.applied ↔ _
    rw [h.applied hd n]
    constructor
    · rintro ⟨x, hx, hxn⟩
      by_cases hxk : x = k.conf
      · exact ⟨c, (hmemp c).mpr (.inl rfl), by rw [hn, ← hxk, hxn]⟩
      · exact ⟨x, (hmemp x).mpr (.inr ⟨hx, hxk⟩), hxn⟩
    · rintro ⟨x, hx, hxn⟩
      rcases (hmemp x).mp hx with rfl | ⟨hx, -⟩
      · exact ⟨k.conf, hmem, by rw [← hn, hxn]⟩
      · exact ⟨x, hx, hxn⟩

end Ledger

end Bmd
