import Bmd.Correctness.Ledger

/-!
# `Correctness.Passes` — the ledger during a reload

A reload breaks the invariant of the ledger and restores it. The first pass gives VMs new configurations
(`First`); the second one hands every VM its new configuration, and unlinks those of the VMs that have none
(`Second`); in the end what is left of the old list is freed. A VM in `REMOVE` at the start would be unlinked a
second time, so that there must be none.
-/

namespace Bmd

namespace Ledger

variable {l l' : Ledger} {d : Prop} {a c : Addr} {k m : Stake}

/-! ## The first pass -/

/-- `VM_NEWCONF` of every VM is cleared. -/
def cleared (l : Ledger) : Ledger := { l with stake := fun a => (l.stake a).map ({ · with new := none }) }

/-- **The first pass**, with `vm_conf_list` and the part of the new list that has been gone through. -/
structure First (d : Prop) (old done : List Addr) (l : Ledger) : Prop where
  clean : l.spoiled = false
  linked : l.linked = old
  nodup : old.Nodup
  live : ∀ c ∈ old, l.live c = true
  present : ∀ a k, l.stake a = some k → k.leaving = false
  kept : ∀ a k, l.stake a = some k → k.new = none → k.conf ∈ old
  given : ∀ a k c, l.stake a = some k → k.new = some c → c ∈ done
  inj : l.Distinct Stake.next
  names : d → l.Distinct fun k => l.name k.conf
  same : d → ∀ a k c, l.stake a = some k → k.new = some c → l.name c = l.name k.conf
  cover : d → ∀ c ∈ done, ∃ a k, l.stake a = some k ∧ k.new = some c

theorem cleared_stake (h : l.cleared.stake a = some k) : ∃ m, l.stake a = some m ∧ k = { m with new := none } := by
  obtain ⟨m, hm, rfl⟩ := Option.map_eq_some_iff.mp h
  exact ⟨m, hm, rfl⟩

theorem Sound.first (h : l.Sound d) (hno : ∀ a k, l.stake a = some k → k.leaving = false) :
    l.cleared.First d l.linked [] := by
  have hdist : ∀ {γ : Type} {f : Stake → γ}, (∀ m, f { m with new := none } = f m) → l.Distinct f →
      l.cleared.Distinct f := by
    intro γ f hf hd x y m n hm hn heq
    obtain ⟨m', hm', rfl⟩ := cleared_stake hm
    obtain ⟨n', hn', rfl⟩ := cleared_stake hn
    rw [hf, hf] at heq
    exact hd x y m' n' hm' hn' heq
  refine ⟨h.clean, rfl, h.nodup, h.live, ?_, ?_, ?_, ?_, fun hd => hdist (fun _ => rfl) (h.names hd), ?_, ?_⟩
  · intro a k hk
    obtain ⟨m, hm, rfl⟩ := cleared_stake hk
    exact hno a m hm
  · intro a k hk _
    obtain ⟨m, hm, rfl⟩ := cleared_stake hk
    exact h.stays a m hm (hno a m hm)
  · intro a k c hk hc
    obtain ⟨m, hm, rfl⟩ := cleared_stake hk
    cases hc
  · intro x y m n hm hn heq
    obtain ⟨m', hm', rfl⟩ := cleared_stake hm
    obtain ⟨n', hn', rfl⟩ := cleared_stake hn
    exact h.inj x y m' n' hm' hn' heq
  · intro _ a k c hk hc
    obtain ⟨m, hm, rfl⟩ := cleared_stake hk
    cases hc
  · intro _ c hc
    cases hc

section First

variable {old done : List Addr}

theorem First.next_mem (h : l.First d old done) (hk : l.stake a = some k) : k.next ∈ old ∨ k.next ∈ done := by
  cases hn : k.new with
  | none =>
    rw [Stake.next, hn]
    exact .inl (h.kept a k hk hn)
  | some c =>
    rw [Stake.next, hn]
    exact .inr (h.given a k c hk hn)

theorem First.congr {done' : List Addr} (h : l.First d old done) (hmem : ∀ x, x ∈ done' ↔ x ∈ done) :
    l.First d old done' :=
  { h with
    given := fun a k c hk hc => (hmem c).mpr (h.given a k c hk hc)
    cover := fun hd c hc => h.cover hd c ((hmem c).mp hc) }

/-- A VM gets `c` as its new configuration: it has the name of `c`, no other VM has it, and the VM was not given
    another configuration. -/
theorem First.give {q : Addr} (h : l.First d old done) (ho : c ∉ old) (hd : c ∉ done)
    (hq : d → l.name c = l.name q) (hn : d → ∀ x m, x ≠ a → l.stake x = some m → l.name m.conf ≠ l.name q)
    (hfree : d → ∀ k, l.stake a = some k → k.new = none) :
    (l.hold a (some ⟨q, some c, false⟩)).First d old (c :: done) := by
  refine ⟨h.clean, h.linked, h.nodup, h.live, ?_, ?_, ?_, ?_, fun hd => (h.names hd).hold_some (hn hd), ?_, ?_⟩
  · intro x m hm
    rcases hold_some hm with ⟨rfl, rfl⟩ | ⟨-, hm⟩
    · rfl
    · exact h.present x m hm
  · intro x m hm hmn
    rcases hold_some hm with ⟨rfl, rfl⟩ | ⟨-, hm⟩
    · cases hmn
    · exact h.kept x m hm hmn
  · intro x m y hm hmn
    rcases hold_some hm with ⟨rfl, rfl⟩ | ⟨-, hm⟩
    · cases hmn
      exact List.mem_cons_self
    · exact List.mem_cons_of_mem _ (h.given x m y hm hmn)
  · refine h.inj.hold_some fun x m _ hm heq => ?_
    have heq : m.next = c := heq
    rcases h.next_mem hm with hx | hx <;> rw [heq] at hx
    · exact ho hx
    · exact hd hx
  · intro hd' x m y hm hmn
    rcases hold_some hm with ⟨rfl, rfl⟩ | ⟨-, hm⟩
    · cases hmn
      exact hq hd'
    · exact h.same hd' x m y hm hmn
  · intro hd' x hx
    rcases List.mem_cons.mp hx with rfl | hx
    · exact ⟨a, _, hold_stake_self, rfl⟩
    · obtain ⟨y, m, hm, hmn⟩ := h.cover hd' x hx
      have hy : y ≠ a := by
        rintro rfl
        rw [hfree hd' m hm] at hmn
        cases hmn
      exact ⟨y, m, by rwa [hold_stake_of_ne hy], hmn⟩

/-- The VM with the name of `c` is found. -/
theorem First.found {q : Addr} (h : l.First d old done) (ho : c ∉ old) (hd : c ∉ done)
    (hnew : d → ∀ x ∈ done, l.name x ≠ l.name c) (hk : l.stake a = some k) (hn : l.name k.conf = l.name c)
    (hq : q = k.conf ∨ q = c) :
    (l.hold a (some ⟨q, some c, k.leaving⟩)).First d old (c :: done) := by
  have hqn : l.name q = l.name k.conf := by
    rcases hq with rfl | rfl
    · rfl
    · exact hn.symm
  rw [h.present a k hk]
  refine h.give ho hd (fun _ => hn.symm.trans hqn.symm) (fun hd' x m hx hm heq => ?_) fun hd' m hm => ?_
  · exact hx (h.names hd' x a m k hm hk (heq.trans hqn))
  · rw [hk] at hm
    cases hm
    cases hkn : k.new with
    | none => rfl
    | some y => exact (hnew hd' y (h.given a k y hk hkn) ((h.same hd' a k y hk hkn).trans hn)).elim

/-- A VM is created for `c`. -/
theorem First.created (h : l.First d old done) (ho : c ∉ old) (hd : c ∉ done) (ha : l.stake a = none)
    (hn : ∀ x m, l.stake x = some m → l.name m.conf ≠ l.name c) :
    (l.hold a (some ⟨c, some c, false⟩)).First d old (c :: done) := by
  refine h.give ho hd (fun _ => rfl) (fun _ x m _ hm => hn x m hm) fun _ m hm => ?_
  rw [ha] at hm
  cases hm

end First

/-! ## The second pass -/

/-- **The second pass**, with the old and the new list and the VMs that are still to be gone through. -/
structure Second (d : Prop) (old new todo : List Addr) (l : Ledger) : Prop where
  clean : l.spoiled = false
  nodup : l.linked.Nodup
  sub : ∀ c ∈ l.linked, c ∈ old
  live : ∀ c ∈ l.linked, l.live c = true
  liveNew : ∀ c ∈ new, l.live c = true
  waiting : ∀ a ∈ todo, ∀ k, l.stake a = some k →
    k.leaving = false ∧ (k.new = none → k.conf ∈ l.linked) ∧ ∀ c, k.new = some c → c ∈ new
  settled : ∀ a, a ∉ todo → ∀ k, l.stake a = some k → k.new = none ∧
    ((k.leaving = false ∧ k.conf ∈ new) ∨
      (k.leaving = true ∧ k.conf ∈ old ∧ k.conf ∉ l.linked ∧ l.live k.conf = true))
  inj : l.Distinct Stake.next
  names : d → l.Distinct fun k => l.name k.next
  cover : d → ∀ c ∈ new, ∃ a k, l.stake a = some k ∧ k.next = c

section Second

variable {old new todo : List Addr}

theorem First.second (h : l.First d old new) (hlive : ∀ c ∈ new, l.live c = true)
    (htodo : ∀ a k, l.stake a = some k → a ∈ todo) : l.Second d old new todo := by
  have hl := h.linked
  have hname : d → ∀ a k, l.stake a = some k → l.name k.next = l.name k.conf := by
    intro hd a k hk
    cases hn : k.new with
    | none => rw [Stake.next, hn]; rfl
    | some c =>
      rw [Stake.next, hn]
      exact h.same hd a k c hk hn
  subst hl
  refine ⟨h.clean, h.nodup, fun _ => id, h.live, hlive, fun a _ k hk => ?_, fun a ha k hk => ?_, h.inj, ?_, ?_⟩
  · exact ⟨h.present a k hk, h.kept a k hk, fun c => h.given a k c hk⟩
  · exact (ha (htodo a k hk)).elim
  · intro hd a b k m hk hm heq
    dsimp only at heq
    rw [hname hd a k hk, hname hd b m hm] at heq
    exact h.names hd a b k m hk hm heq
  · intro hd c hc
    obtain ⟨a, k, hk, hkn⟩ := h.cover hd c hc
    exact ⟨a, k, hk, by rw [Stake.next, hkn]; rfl⟩

/-- There is no such VM any more. -/
theorem Second.skip (h : l.Second d old new (a :: todo)) (ha : l.stake a = none) : l.Second d old new todo := by
  refine { h with
    waiting := fun x hx => h.waiting x (List.mem_cons_of_mem _ hx), settled := fun x hx k hk => ?_ }
  refine h.settled x (fun hmem => ?_) k hk
  rcases List.mem_cons.mp hmem with rfl | hmem
  · rw [ha] at hk
    cases hk
  · exact hx hmem

/-- The VM gets its new configuration. -/
theorem Second.adopt (h : l.Second d old new (a :: todo)) (ha : a ∉ todo) (hk : l.stake a = some k)
    (hc : k.new = some c) : (l.hold a (some ⟨c, none, k.leaving⟩)).Second d old new todo := by
  have hnext : Stake.next ⟨c, none, k.leaving⟩ = k.next := by rw [Stake.next, Stake.next, hc]; rfl
  obtain ⟨hst, -, hgiven⟩ := h.waiting a List.mem_cons_self k hk
  refine ⟨h.clean, h.nodup, h.sub, h.live, h.liveNew, ?_, ?_, h.inj.hold_same hk hnext,
    fun hd => (h.names hd).hold_same hk (congrArg l.name hnext), ?_⟩
  · intro x hx m hm
    rcases hold_some hm with ⟨rfl, rfl⟩ | ⟨-, hm⟩
    · exact (ha hx).elim
    · exact h.waiting x (List.mem_cons_of_mem _ hx) m hm
  · intro x hx m hm
    rcases hold_some hm with ⟨rfl, rfl⟩ | ⟨hxa, hm⟩
    · exact ⟨rfl, .inl ⟨hst, hgiven c hc⟩⟩
    · exact h.settled x (fun hmem => (List.mem_cons.mp hmem).elim hxa hx) m hm
  · intro hd x hx
    obtain ⟨y, m, hm, rfl⟩ := h.cover hd x hx
    by_cases hy : y = a
    · subst hy
      rw [hk] at hm
      cases hm
      exact ⟨y, _, hold_stake_self, hnext⟩
    · exact ⟨y, m, by rwa [hold_stake_of_ne hy], rfl⟩

/-- The VM of the head of the list is not one that has a new configuration. -/
theorem Second.next_of_none (h : l.Second d old new (a :: todo)) (hk : l.stake a = some k) (hn : k.new = none) :
    k.next = k.conf ∧ k.conf ∈ l.linked ∧ k.leaving = false := by
  obtain ⟨hst, hmem, -⟩ := h.waiting a List.mem_cons_self k hk
  exact ⟨by rw [Stake.next, hn]; rfl, hmem hn, hst⟩

/-- Of the other VMs, those that are to be dropped hold other entries. -/
theorem Second.conf_ne (h : l.Second d old new (a :: todo)) (hk : l.stake a = some k)
    (hn : k.new = none) {x : Addr} (hx : x ≠ a) (hm : l.stake x = some m) (hmn : m.new = none) :
    m.conf ≠ k.conf := by
  intro heq
  refine hx (h.inj x a m k hm hk ?_)
  rw [Stake.next, Stake.next, hmn, hn]
  exact heq

/-- The VM has no new configuration and a process: it is marked for removal. -/
theorem Second.mark (h : l.Second d old new (a :: todo)) (happ : ∀ c ∈ new, c ∉ old) (ha : a ∉ todo)
    (hk : l.stake a = some k) (hn : k.new = none) :
    ((l.hold a (some ⟨k.conf, none, true⟩)).unlink k.conf).Second d old new todo := by
  obtain ⟨hnext, hmem, -⟩ := h.next_of_none hk hn
  have hnext' : Stake.next ⟨k.conf, none, true⟩ = k.next := hnext.symm
  rw [unlink_of_mem (show k.conf ∈ (l.hold a _).linked from hmem)]
  refine ⟨h.clean, h.nodup.erase _, fun c hc => h.sub c (List.mem_of_mem_erase hc),
    fun c hc => h.live c (List.mem_of_mem_erase hc), h.liveNew, ?_, ?_, h.inj.hold_same hk hnext',
    fun hd => (h.names hd).hold_same hk (congrArg l.name hnext'), ?_⟩
  · intro x hx m hm
    rcases hold_some hm with ⟨rfl, rfl⟩ | ⟨hxa, hm⟩
    · exact (ha hx).elim
    · obtain ⟨h1, h2, h3⟩ := h.waiting x (List.mem_cons_of_mem _ hx) m hm
      exact ⟨h1, fun hmn => (h.nodup.mem_erase_iff).mpr ⟨h.conf_ne hk hn hxa hm hmn, h2 hmn⟩, h3⟩
  · intro x hx m hm
    rcases hold_some hm with ⟨rfl, rfl⟩ | ⟨hxa, hm⟩
    · exact ⟨rfl, .inr ⟨rfl, h.sub _ hmem, fun hc => (h.nodup.mem_erase_iff.mp hc).1 rfl, h.live _ hmem⟩⟩
    · obtain ⟨h1, h2⟩ := h.settled x (fun hmem => (List.mem_cons.mp hmem).elim hxa hx) m hm
      exact ⟨h1, h2.imp_right fun ⟨h3, h4, h5, h6⟩ => ⟨h3, h4, fun hc => h5 (List.mem_of_mem_erase hc), h6⟩⟩
  · intro hd x hx
    obtain ⟨y, m, hm, rfl⟩ := h.cover hd x hx
    have hy : y ≠ a := by
      rintro rfl
      rw [hk] at hm
      cases hm
      exact happ _ hx (by rw [hnext]; exact h.sub _ hmem)
    exact ⟨y, m, by
      show (l.hold a _).stake y = _
      rwa [hold_stake_of_ne hy], rfl⟩

/-- The VM has no new configuration and no process: it is forgotten. -/
theorem Second.forget (h : l.Second d old new (a :: todo)) (happ : ∀ c ∈ new, c ∉ old)
    (hk : l.stake a = some k) (hn : k.new = none) :
    (((l.hold a none).unlink k.conf).free k.conf).Second d old new todo := by
  obtain ⟨hnext, hmem, -⟩ := h.next_of_none hk hn
  rw [unlink_of_mem (show k.conf ∈ (l.hold a none).linked from hmem)]
  have hf := free_frees (l := { l.hold a none with linked := l.linked.erase k.conf }) (c := k.conf) (h.live _ hmem)
  obtain ⟨p, hp⟩ : ∃ p, ({ l.hold a none with linked := l.linked.erase k.conf } : Ledger).free k.conf = p := ⟨_, rfl⟩
  have hp' : ({ l.hold a none with linked := (l.hold a none).linked.erase k.conf } : Ledger).free k.conf = p := hp
  rw [hp] at hf
  rw [hp']
  have hlinked : p.linked = l.linked.erase k.conf := hf.linked
  have hstake : ∀ {x m}, p.stake x = some m → x ≠ a ∧ l.stake x = some m := fun hm => by
    rw [hf.stake] at hm
    exact hold_none hm
  have hlive : ∀ {x}, x ≠ k.conf → l.live x = true → p.live x = true := fun hx hl => by
    rw [hf.live _ hx]
    exact hl
  refine ⟨hf.spoiled.trans h.clean, by rw [hlinked]; exact h.nodup.erase _, ?_, ?_, ?_, ?_, ?_, ?_, ?_, ?_⟩
  · rw [hlinked]
    exact fun c hc => h.sub c (List.mem_of_mem_erase hc)
  · rw [hlinked]
    intro c hc
    obtain ⟨hne, hc⟩ := h.nodup.mem_erase_iff.mp hc
    exact hlive hne (h.live c hc)
  · intro c hc
    exact hlive (fun heq => happ c hc (heq ▸ h.sub _ hmem)) (h.liveNew c hc)
  · intro x hx m hm
    obtain ⟨hxa, hm⟩ := hstake hm
    obtain ⟨h1, h2, h3⟩ := h.waiting x (List.mem_cons_of_mem _ hx) m hm
    rw [hlinked]
    exact ⟨h1, fun hmn => (h.nodup.mem_erase_iff).mpr ⟨h.conf_ne hk hn hxa hm hmn, h2 hmn⟩, h3⟩
  · intro x hx m hm
    obtain ⟨hxa, hm⟩ := hstake hm
    obtain ⟨h1, h2⟩ := h.settled x (fun hmem => (List.mem_cons.mp hmem).elim hxa hx) m hm
    rw [hlinked]
    refine ⟨h1, h2.imp_right fun ⟨h3, h4, h5, h6⟩ => ⟨h3, h4, fun hc => h5 (List.mem_of_mem_erase hc), ?_⟩⟩
    exact hlive (h.conf_ne hk hn hxa hm h1) h6
  · exact h.inj.hold_none.of_stake hf.stake
  · intro hd
    rw [hf.name]
    exact (h.names hd).hold_none.of_stake hf.stake
  · intro hd x hx
    obtain ⟨y, m, hm, rfl⟩ := h.cover hd x hx
    have hy : y ≠ a := by
      rintro rfl
      rw [hk] at hm
      cases hm
      exact happ _ hx (by rw [hnext]; exact h.sub _ hmem)
    exact ⟨y, m, by rw [hf.stake]; exact (hold_stake_of_ne hy).trans hm, rfl⟩

end Second

/-! ## The end of a reload -/

/-- The last loop of a reload. -/
def freeAll (l : Ledger) : List Addr → Ledger
  | [] => l
  | c :: rest => (l.free c).freeAll rest

/-- All entries of a list of live ones are freed. -/
structure FreesAll (cs : List Addr) (l l' : Ledger) : Prop where
  stake : l'.stake = l.stake
  applied : l'.applied = l.applied
  spoiled : l'.spoiled = l.spoiled
  name : l'.name = l.name
  live : ∀ x, x ∉ cs → l'.live x = l.live x

theorem freeAll_frees {cs : List Addr} (hnd : cs.Nodup) (hlive : ∀ c ∈ cs, l.live c = true) :
    FreesAll cs l (l.freeAll cs) := by
  induction cs generalizing l with
  | nil => exact ⟨rfl, rfl, rfl, rfl, fun _ _ => rfl⟩
  | cons c rest ih =>
    obtain ⟨hc, hnd⟩ := List.nodup_cons.mp hnd
    have hf := free_frees (hlive c List.mem_cons_self)
    have hr := ih (l := l.free c) hnd fun x hx => by
      rw [hf.live x fun heq => hc (heq ▸ hx)]
      exact hlive x (List.mem_cons_of_mem _ hx)
    refine ⟨hr.stake.trans hf.stake, hr.applied.trans hf.applied, hr.spoiled.trans hf.spoiled,
      hr.name.trans hf.name, fun x hx => ?_⟩
    obtain ⟨hxc, hxr⟩ := not_or.mp fun hor => hx (List.mem_cons.mpr hor)
    rw [freeAll, hr.live x hxr, hf.live x hxc]

/-- **The reload is done**: what is left of the old list is freed, and the new list takes its place. -/
theorem Second.sound {old new : List Addr} {names : List String} (h : l.Second d old new [])
    (happ : ∀ c ∈ new, c ∉ old) (hnd : new.Nodup) (hnames : names.map some = new.map l.name) :
    ({ l.freeAll l.linked with linked := new, applied := names } : Ledger).Sound d := by
  have hf := freeAll_frees h.nodup h.live
  have hset : ∀ {a k}, l.stake a = some k → k.new = none ∧ ((k.leaving = false ∧ k.conf ∈ new) ∨
      (k.leaving = true ∧ k.conf ∈ old ∧ k.conf ∉ l.linked ∧ l.live k.conf = true)) := fun hk =>
    h.settled _ List.not_mem_nil _ hk
  have hnext : ∀ {a k}, l.stake a = some k → k.next = k.conf := fun hk => by
    rw [Stake.next, (hset hk).1]
    rfl
  refine ⟨hf.spoiled.trans h.clean, hnd, ?_, ?_, ?_, ?_, ?_, ?_, ?_⟩
  · intro c hc
    show (l.freeAll l.linked).live c = true
    rw [hf.live c fun hmem => happ c hc (h.sub c hmem)]
    exact h.liveNew c hc
  · intro a k hk hkl
    have hk : l.stake a = some k := hf.stake ▸ hk
    rcases (hset hk).2 with ⟨-, hc⟩ | ⟨hkl', -⟩
    · exact hc
    · rw [hkl] at hkl'
      cases hkl'
  · intro a k hk hkl
    have hk : l.stake a = some k := hf.stake ▸ hk
    rcases (hset hk).2 with ⟨hkl', -⟩ | ⟨-, ho, hno, hlv⟩
    · rw [hkl] at hkl'
      cases hkl'
    · refine ⟨fun hc => happ _ hc ho, ?_⟩
      show (l.freeAll l.linked).live _ = true
      rw [hf.live _ hno]
      exact hlv
  · intro a b k m hk hm heq
    have hk : l.stake a = some k := hf.stake ▸ hk
    have hm : l.stake b = some m := hf.stake ▸ hm
    exact h.inj a b k m hk hm (by rw [hnext hk, hnext hm]; exact heq)
  · intro hd a b k m hk hm heq
    have hk : l.stake a = some k := hf.stake ▸ hk
    have hm : l.stake b = some m := hf.stake ▸ hm
    refine h.names hd a b k m hk hm ?_
    dsimp only
    rw [hnext hk, hnext hm, ← hf.name]
    exact heq
  · intro hd c hc
    obtain ⟨a, k, hk, hkc⟩ := h.cover hd c hc
    exact ⟨a, k, hf.stake ▸ hk, by rw [← hnext hk, hkc]⟩
  · intro _ n
    show n ∈ names ↔ ∃ c ∈ new, (l.freeAll l.linked).name c = some n
    rw [hf.name, ← List.mem_map, ← hnames, List.mem_map]
    exact ⟨fun hn => ⟨n, hn, rfl⟩, fun ⟨m, hm, heq⟩ => Option.some.inj heq ▸ hm⟩

end Ledger

end Bmd
