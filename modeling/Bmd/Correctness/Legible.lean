import Bmd.Correctness.Tracking

/-!
# `Correctness.Legible` — names and origins of configuration entries

No two VMs have the same name, and every entry still says what it was loaded with, apart from the `install` flag.
Unlike `Sound`, this survives every run from a configuration with distinct names: a reload looks each name up
before it creates a VM, whatever state that VM is in.
-/

namespace Bmd

open Lib Lib.Prog

variable {s s' t : Daemon} {a b c : Addr} {env : Env} {v : VmEntry} {u : Unit} {l l' : Ledger} {k m : Stake}
  {load : List LoadedConf} {off : Int}

/-- **The invariant.** -/
structure Ledger.Legible (l : Ledger) : Prop where
  apart : l.Distinct fun k => l.name k.conf
  held : ∀ a k, l.stake a = some k → (l.cell k.conf).isSome
  faithful : ∀ c e, l.cell c = some e → e.Faithful

namespace Ledger

/-! ## Single operations -/

theorem free_stake : (l.free c).stake = l.stake := by
  unfold free
  split <;> rfl

/-- Freeing an entry changes a flag in its cell. -/
theorem free_cell (x : Addr) :
    (l.free c).cell x = l.cell x ∨ (l.free c).cell x = (l.cell x).map ({ · with freed := true }) := by
  unfold free
  split
  · by_cases hx : x = c
    · subst hx
      exact .inr (Function.update_self ..)
    · exact .inl (Function.update_of_ne hx ..)
  · exact .inl rfl

/-- The cells of `l'` are those of `l`, freed or not. -/
def SameCells (l l' : Ledger) : Prop :=
  ∀ x, l'.cell x = l.cell x ∨ l'.cell x = (l.cell x).map ({ · with freed := true })

theorem SameCells.isSome (h : l.SameCells l') {x : Addr} (hx : (l.cell x).isSome) : (l'.cell x).isSome := by
  rcases h x with h | h <;> rw [h]
  · exact hx
  · rw [Option.isSome_map]
    exact hx

theorem SameCells.name (h : l.SameCells l') : l'.name = l.name := by
  funext x
  rcases h x with h | h
  · rw [Ledger.name, h, Ledger.name]
  · rw [Ledger.name, h, Option.map_map, Ledger.name]
    rfl

theorem SameCells.faithful (h : l.SameCells l') (hf : ∀ c e, l.cell c = some e → e.Faithful) :
    ∀ c e, l'.cell c = some e → e.Faithful := by
  intro c e he
  rcases h c with h | h <;> rw [h] at he
  · exact hf c e he
  · obtain ⟨x, hx, rfl⟩ := Option.map_eq_some_iff.mp he
    exact hf c x hx

/-- No VM appears, and those that stay keep their name. -/
theorem Legible.of_fewer (h : l.Legible) (hc : l.SameCells l')
    (hs : ∀ a k, l'.stake a = some k → ∃ m, l.stake a = some m ∧ l.name k.conf = l.name m.conf ∧
      (l.cell k.conf).isSome) : l'.Legible := by
  refine ⟨fun a b k m hk hm heq => ?_, fun a k hk => ?_, hc.faithful h.faithful⟩
  · obtain ⟨k', hk', hnk, -⟩ := hs a k hk
    obtain ⟨m', hm', hnm, -⟩ := hs b m hm
    dsimp only at heq
    rw [hc.name] at heq
    exact h.apart a b k' m' hk' hm' (hnk.symm.trans (heq.trans hnm))
  · obtain ⟨m, -, -, hsome⟩ := hs a k hk
    exact hc.isSome hsome

theorem Legible.of_stake (h : l.Legible) (hc : l.SameCells l') (hs : l'.stake = l.stake) : l'.Legible :=
  h.of_fewer hc fun a k hk => ⟨k, hs ▸ hk, rfl, h.held a k (hs ▸ hk)⟩

theorem Legible.loads {new : List Addr} {ls : List LoadedConf} (h : l.Legible) (hl : l.Loads new ls l') :
    l'.Legible := by
  have hcell : ∀ {x : Addr}, (l.cell x).isSome → l'.cell x = l.cell x := by
    intro x hx
    refine hl.old x fun hmem => ?_
    rw [hl.fresh x hmem] at hx
    cases hx
  have hname : ∀ {x : Addr}, (l.cell x).isSome → l'.name x = l.name x := fun hx => by
    rw [name, hcell hx, name]
  refine ⟨fun a b k m hk hm heq => ?_, fun a k hk => ?_, hl.faithful h.faithful⟩
  · rw [hl.stake] at hk hm
    dsimp only at heq
    rw [hname (h.held a k hk), hname (h.held b m hm)] at heq
    exact h.apart a b k m hk hm heq
  · rw [hl.stake] at hk
    rw [hcell (h.held a k hk)]
    exact h.held a k hk

theorem sameCells_free : l.SameCells (l.free c) := free_cell

theorem unlink_cell : (l.unlink c).cell = l.cell := by
  unfold unlink
  split <;> rfl

theorem unlink_stake : (l.unlink c).stake = l.stake := by
  unfold unlink
  split <;> rfl

theorem Turn.legible (ht : l.Turn l') (h : l.Legible) : l'.Legible := by
  cases ht with
  | load hl => exact h.loads hl
  | discard => exact h.of_stake sameCells_free free_stake
  | @replace a c k hk hl hloose hn =>
    have hcells : l.SameCells ((((l.unlink k.conf).link c).free k.conf).hold a (some { k with conf := c })) := by
      intro x
      have hx := free_cell (l := (l.unlink k.conf).link c) (c := k.conf) x
      rw [show ((l.unlink k.conf).link c).cell = l.cell from unlink_cell] at hx
      exact hx
    refine h.of_fewer hcells fun x m hm => ?_
    rcases hold_some hm with ⟨rfl, rfl⟩ | ⟨-, hm⟩
    · refine ⟨k, hk, hn, ?_⟩
      have hlive := hloose.live
      rw [live, Option.any_eq_true] at hlive
      obtain ⟨e, he, -⟩ := hlive
      rw [he]
      rfl
    · have hm' : l.stake x = some m := by
        rw [free_stake] at hm
        exact unlink_stake (l := l) (c := k.conf) ▸ hm
      exact ⟨m, hm', rfl, h.held x m hm'⟩
  | @gone a k hk hl =>
    refine h.of_fewer (fun x => free_cell (l := l.hold a none) x) fun x m hm => ?_
    rw [free_stake] at hm
    have hm' := (hold_none hm).2
    exact ⟨m, hm', rfl, h.held x m hm'⟩

/-! ## The passes of a reload -/

/-- During a reload: the configuration that a VM is about to get has the name of the VM. -/
structure Agreed (l : Ledger) : Prop extends l.Legible where
  agree : ∀ a k c, l.stake a = some k → k.new = some c → l.name c = l.name k.conf ∧ (l.cell c).isSome

theorem Legible.cleared (h : l.Legible) : l.cleared.Agreed := by
  have hmem : ∀ a k, l.cleared.stake a = some k → ∃ m, l.stake a = some m ∧ k.conf = m.conf ∧ k.new = none := by
    intro a k hk
    obtain ⟨m, hm, rfl⟩ := Option.map_eq_some_iff.mp hk
    exact ⟨m, hm, rfl, rfl⟩
  refine ⟨h.of_fewer (fun _ => .inl rfl) fun a k hk => ?_, fun a k c hk hc => ?_⟩
  · obtain ⟨m, hm, hconf, -⟩ := hmem a k hk
    rw [hconf]
    exact ⟨m, hm, rfl, h.held a m hm⟩
  · obtain ⟨m, -, -, hnew⟩ := hmem a k hk
    rw [hnew] at hc
    cases hc

/-- A VM gets a stake; no other VM has its name. -/
theorem Agreed.hold (h : l.Agreed) (hcell : (l.cell m.conf).isSome)
    (hother : ∀ x n, x ≠ a → l.stake x = some n → l.name n.conf ≠ l.name m.conf)
    (hnew : ∀ c, m.new = some c → l.name c = l.name m.conf ∧ (l.cell c).isSome) :
    (l.hold a (some m)).Agreed := by
  refine ⟨⟨h.apart.hold_some hother, fun x n hn => ?_, h.faithful⟩, fun x n c hn hc => ?_⟩
  · rcases hold_some hn with ⟨rfl, rfl⟩ | ⟨-, hn⟩
    · exact hcell
    · exact h.held x n hn
  · rcases hold_some hn with ⟨rfl, rfl⟩ | ⟨-, hn⟩
    · exact hnew c hc
    · exact h.agree x n c hn hc

/-- A VM that was there keeps its name. -/
theorem Agreed.rehold (h : l.Agreed) (hk : l.stake a = some k) (hcell : (l.cell m.conf).isSome)
    (hn : l.name m.conf = l.name k.conf)
    (hnew : ∀ c, m.new = some c → l.name c = l.name m.conf ∧ (l.cell c).isSome) : (l.hold a (some m)).Agreed :=
  h.hold hcell (fun x n hx hn' heq => hx (h.apart x a n k hn' hk (heq.trans hn))) hnew

/-- VMs disappear, entries are unlinked or freed. -/
theorem Agreed.of_fewer (h : l.Agreed) (hc : l.SameCells l') (hs : ∀ a k, l'.stake a = some k → l.stake a = some k) :
    l'.Agreed := by
  refine ⟨h.toLegible.of_fewer hc fun a k hk => ⟨k, hs a k hk, rfl, h.held a k (hs a k hk)⟩, ?_⟩
  intro a k c hk hnew
  obtain ⟨h1, h2⟩ := h.agree a k c (hs a k hk) hnew
  rw [hc.name]
  exact ⟨h1, hc.isSome h2⟩

theorem Enter.agreed {r : Bool} (h : l.Enter env c r l') (hA : l.Agreed) (hc : (l.cell c).isSome) : l'.Agreed := by
  cases h with
  | failed => exact hA
  | created ha hno =>
    refine hA.hold hc (fun x n _ hn => hno x n hn) fun c' hc' => ?_
    cases hc'
    exact ⟨rfl, hc⟩
  | @found a x k hk hn hx =>
    have hx' : l.name x = l.name k.conf ∧ (l.cell x).isSome := by
      rcases hx with rfl | rfl
      · exact ⟨rfl, hA.held a k hk⟩
      · exact ⟨hn, hc⟩
    refine hA.rehold hk hx'.2 hx'.1 fun c' hc' => ?_
    cases hc'
    exact ⟨hn.trans hx'.1.symm, hc⟩

theorem Settle.agreed (h : l.Settle a l') (hA : l.Agreed) : l'.Agreed := by
  cases h with
  | skip => exact hA
  | @adopt k c hk hc =>
    obtain ⟨hn, hcell⟩ := hA.agree a k c hk hc
    exact hA.rehold hk hcell hn nofun
  | @mark k hk hc =>
    have hmark : (l.hold a (some ⟨k.conf, none, true⟩)).Agreed :=
      hA.rehold hk (hA.held a k hk) rfl nofun
    exact hmark.of_fewer (fun x => .inl (congrFun unlink_cell x)) fun x m hm => unlink_stake (c := k.conf) ▸ hm
  | @forget k hk hc =>
    refine hA.of_fewer (fun x => ?_) fun x m hm => ?_
    · have hx := free_cell (l := (l.hold a none).unlink k.conf) (c := k.conf) x
      rw [unlink_cell] at hx
      exact hx
    · rw [free_stake, unlink_stake] at hm
      exact (hold_none hm).2

theorem sameCells_freeAll (l : Ledger) (new : List Addr) : l.SameCells (l.freeAll new) ∧ (l.freeAll new).stake = l.stake := by
  induction new generalizing l with
  | nil => exact ⟨fun _ => .inl rfl, rfl⟩
  | cons c rest ih =>
    obtain ⟨hc, hs⟩ := ih (l := l.free c)
    refine ⟨fun x => ?_, hs.trans free_stake⟩
    rcases hc x with h | h <;> rcases free_cell (l := l) (c := c) x with h' | h' <;> rw [h'] at h
    · exact .inl h
    · exact .inr h
    · exact .inr h
    · refine .inr (h.trans ?_)
      rw [Option.map_map]
      rfl

end Ledger

/-! ## Reloads -/

section Reload

variable {new : List Addr}

theorem reloadConfs_agreed {r : Bool} (hw : WF s) (hcmd : ∀ a, (s.view a).Recalled)
    (hl : ∀ c ∈ new, (s.conf? c).isSome) (hA : s.ledger.Agreed) (h : reloadConfs env new s = .ok (r, s')) :
    s'.ledger.Agreed := by
  induction new generalizing s with
  | nil =>
    cases h
    exact hA
  | cons c rest ih =>
    obtain ⟨ok, s1, h1, h⟩ := of_bind h
    have hc := hl c List.mem_cons_self
    have hA1 := (reloadConf_enter hw hcmd hc h1).agreed hA (cell_isSome hc)
    obtain ⟨t1, cmd1, -⟩ := (reloadConf_spec hw hcmd hc h1).obeys hw hcmd
    cases ok with
    | false =>
      cases h
      exact hA1
    | true => exact ih t1.wf cmd1 (fun x hx => t1.confs x (hl x (List.mem_cons_of_mem _ hx))) hA1 h

theorem settleVms_agreed {l : List Addr} (hw : WF s) (hcmd : ∀ a, (s.view a).Recalled) (hA : s.ledger.Agreed)
    (h : settleVms env l s = .ok (u, s')) : s'.ledger.Agreed := by
  induction l generalizing s with
  | nil =>
    cases h
    exact hA
  | cons a rest ih =>
    obtain ⟨_, s1, h1, h⟩ := of_bind h
    obtain ⟨t1, cmd1, -⟩ := settleVm_obeys a h1 hw hcmd
    exact ih t1.wf cmd1 ((settleVm_settle hw hcmd h1).agreed hA) h

theorem finishReload_legible (hw : WF s) (hcmd : ∀ a, (s.view a).Recalled) (hA : s.ledger.Agreed)
    (h : finishReload env new s = .ok (u, s')) : s'.ledger.Legible := by
  replace h := get_bind h
  obtain ⟨_, s1, h1, h⟩ := of_bind h
  have hA1 := settleVms_agreed hw hcmd hA h1
  replace h := get_bind h
  obtain ⟨_, s3, h3, h⟩ := of_bind h
  obtain ⟨hcells, hstake⟩ := Ledger.sameCells_freeAll s1.ledger s1.vmConfList
  have hL3 : s3.ledger.Legible := by
    rw [freeConfs_ledger h3]
    exact hA1.toLegible.of_stake hcells hstake
  rw [of_modify h]
  exact ⟨hL3.apart, hL3.held, hL3.faithful⟩

theorem reloadVirtualMachines_legible {load : Option (List LoadedConf)} {r : Int} (hw : WF s)
    (hL : s.ledger.Legible) (h : reloadVirtualMachines env load s = .ok (r, s')) : s'.ledger.Legible := by
  obtain ⟨o, s1, h1, h2⟩ := of_bind h
  rcases loadConfigFile_spec h1 with ⟨rfl, -, rfl⟩ | ⟨ls, rfl, rfl, ha⟩
  · cases h2
    exact hL
  have hw1 := (allocConfs_confSide ls _ _ _ ha).wf hw
  obtain ⟨s2, ok, s3, hb, h3, h⟩ := reloadList_begins hw1 h2
  have hA2 : s2.ledger.Agreed := by
    rw [hb.ledger]
    exact (hL.loads (allocConfs_ledger hw ha)).cleared
  have hconf2 : ∀ c ∈ List.range' s.next ls.length, (s2.conf? c).isSome := fun c hc => by
    rw [conf?_isSome_of_core (core_of_rest hb.rest)]
    exact allocConfs_isSome ha hc
  have hA3 := reloadConfs_agreed hb.wf hb.cmd hconf2 hA2 h3
  obtain ⟨t3, cmd3, -⟩ := (reloadConfs_obeys _ hb.wf hb.cmd hconf2 h3).1 hb.wf hb.cmd
  cases ok with
  | false =>
    rw [show s' = s3 from h]
    exact hA3.toLegible
  | true => exact finishReload_legible t3.wf cmd3 hA3 h

end Reload

theorem boot_legible (hn : (load.map (·.conf.name)).Nodup)
    (hb : boot env load off = some s) (hp : s.phase = .loop) : s.ledger.Legible := by
  obtain ⟨hs, hf⟩ := boot_ledger hb fun _ : True => ⟨hn, hp⟩
  refine ⟨hs.names trivial, fun a k hk => ?_, hf⟩
  obtain ⟨v, -, rfl⟩ := vm?_of_stake hk
  exact cell_isSome (isSome_of_live (hs.live_conf hk))

/-- **Every run** from a configuration with distinct names. -/
theorem steps_legible {s₀ : Daemon} {ok : Daemon → Input → Prop}
    (hn : (load.map (·.conf.name)).Nodup) (hb : boot env load off = some s₀) (hp : s₀.phase = .loop)
    (h : Steps (bmd env) ok s₀ s) : WF s ∧ s.ledger.Legible := by
  have hr : Reach (bmd env) ok s₀ := .init ⟨load, off, hb⟩
  refine ⟨(reach_wf (hr.steps h)).1, ?_⟩
  refine h.invariant (I := fun s => s.ledger.Legible) (boot_legible hn hb hp) ?_
  intro t i t' ht hL _ hstep
  cases step_ledgered (reach_wf (hr.steps ht)).1 hstep with
  | turns hturns => exact star_keeps (fun _ _ hl hturn => hturn.legible hl) hturns hL
  | reload hx hcb hw hl hv hreload h' =>
    rw [h']
    exact reloadVirtualMachines_legible hw (hl ▸ hL) hreload

end Bmd
