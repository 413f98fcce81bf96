import Bmd.Correctness.Holdings
import Bmd.Lib.Long

/-!
# `Correctness.Comport` — console devices

`assign_comport` gives a VM its console at its first start: the device of its configuration or, for `auto`, a null-modem
device with a number above all that are in use. Two things can go wrong. The number is computed in 32-bit arithmetic,
from the names in `/dev` that end in `B`. And the console stays with the VM: no stop clears it, and a later start does
not look at the configuration again. `Daemon.Voiced` ties every console, and every child that was forked with it, to the
setting it was assigned for.
-/

namespace Bmd

open Lib Lib.Prog

variable {s s' t : Daemon} {a b c : Addr} {v w : VmEntry} {env : Env} {u : Unit} {r : Int} {dev : List String}
  {com : String} {n : Nat} {head text console : String} {k : Nat} {setting : Option String}

/-! ## Numbers in device names -/

/-- The text is `head`, a decimal number and the letter `side`. -/
def IsNumbered (head : String) (side : Char) (n : Nat) (text : String) : Prop :=
  ∃ ds : List Char, ds ≠ [] ∧ scanDigits 10 0 ds = (n, []) ∧ text.toList = head.toList ++ ds ++ [side]

/-- The names of the two ends of a null-modem device. -/
def IsNmdm (head : String) (n : Nat) (text : String) : Prop := IsNumbered head 'A' n text ∨ IsNumbered head 'B' n text

/-- One step of `get_nmdm_number`. -/
def nmdmStep (v : Int) (c : Char) : Int :=
  if c.isDigit then wrap32 (wrap32 (wrap32 (v * 10) + c.toNat) - '0'.toNat) else v

theorem getNmdmNumber_some (text : String) : getNmdmNumber (some text) = text.toList.foldl nmdmStep 0 := rfl

theorem foldl_nmdmStep_skip {cs : List Char} (h : ∀ c ∈ cs, c.isDigit = false) (v : Int) : cs.foldl nmdmStep v = v := by
  induction cs generalizing v with
  | nil => rfl
  | cons c cs ih =>
    have hc : nmdmStep v c = v := by simp [nmdmStep, h c List.mem_cons_self]
    rw [List.foldl_cons, hc]
    exact ih (fun x hx => h x (List.mem_cons_of_mem _ hx)) v

theorem digit_of_isDigitOf {c : Char} (h : isDigitOf 10 c = true) :
    c.isDigit = true ∧ (digitVal c).getD 0 + '0'.toNat = c.toNat := by
  have hdigit : '0' ≤ c ∧ c ≤ '9' := by
    by_contra hno
    unfold isDigitOf digitVal at h
    rw [if_neg hno] at h
    split at h
    · simp only [Option.any_some, decide_eq_true_eq] at h
      omega
    · split at h
      · simp only [Option.any_some, decide_eq_true_eq] at h
        omega
      · cases h
  have hlow : '0'.toNat ≤ c.toNat := hdigit.1
  refine ⟨Bool.and_eq_true_iff.mpr ⟨decide_eq_true hdigit.1, decide_eq_true hdigit.2⟩, ?_⟩
  rw [digitVal, if_pos hdigit]
  exact Nat.sub_add_cancel hlow

/-- A digit is read as in unbounded arithmetic, up to the last 32 bits. -/
theorem nmdmStep_digit {c : Char} (h : isDigitOf 10 c = true) (n : Nat) :
    nmdmStep (wrap32 n) c = wrap32 ((n * 10 + (digitVal c).getD 0 : Nat) : Int) := by
  obtain ⟨hdigit, hval⟩ := digit_of_isDigitOf h
  unfold nmdmStep wrap32
  rw [if_pos hdigit, Int.bmod_mul_bmod, Int.bmod_add_bmod, Int.bmod_sub_bmod]
  congr 1
  omega

theorem foldl_nmdmStep_digits {ds : List Char} {acc : Nat} (h : scanDigits 10 acc ds = (n, [])) :
    ds.foldl nmdmStep (wrap32 acc) = wrap32 n := by
  induction ds generalizing acc with
  | nil =>
    cases h
    exact List.foldl_nil
  | cons c ds ih =>
    unfold scanDigits at h
    split at h
    · next hc =>
      rw [List.foldl_cons, nmdmStep_digit hc]
      exact ih h
    · cases h

/-- **`get_nmdm_number`** returns the last 32 bits of the number. -/
theorem getNmdmNumber_numbered {side : Char}
    (hhead : ∀ c ∈ head.toList, c.isDigit = false) (hside : side.isDigit = false)
    (h : IsNumbered head side n text) : getNmdmNumber (some text) = wrap32 n := by
  obtain ⟨ds, -, hds, htext⟩ := h
  have hlast : ∀ c ∈ [side], c.isDigit = false := by simpa using hside
  have hzero : (0 : Int) = wrap32 (0 : Nat) := by decide
  rw [getNmdmNumber_some, htext, List.foldl_append, List.foldl_append, foldl_nmdmStep_skip hhead,
    foldl_nmdmStep_skip hlast, hzero]
  exact foldl_nmdmStep_digits hds

theorem getNmdmNumber_nmdm (hhead : ∀ c ∈ head.toList, c.isDigit = false)
    (h : IsNmdm head n text) : getNmdmNumber (some text) = wrap32 n :=
  h.elim (getNmdmNumber_numbered hhead rfl) (getNmdmNumber_numbered hhead rfl)

theorem getNmdmNumber_le (o : Option String) : getNmdmNumber o ≤ 2147483647 := by
  have hstep : ∀ (cs : List Char) (x : Int), x ≤ 2147483647 → cs.foldl nmdmStep x ≤ 2147483647 := by
    intro cs
    induction cs with
    | nil => exact fun x hx => hx
    | cons c cs ih =>
      intro x hx
      refine ih _ ?_
      unfold nmdmStep
      split
      · exact (wrap32_range _).2
      · exact hx
  cases o with
  | none => decide
  | some text => exact hstep text.toList 0 (by decide)

/-! ## The maximum -/

theorem foldl_max_le {α : Type} (f : α → Int) (l : List α) (m x : Int) :
    l.foldl (fun m y => max (f y) m) m ≤ x ↔ m ≤ x ∧ ∀ y ∈ l, f y ≤ x := by
  induction l generalizing m with
  | nil => simp
  | cons y l ih =>
    rw [List.foldl_cons, ih, Int.max_le, List.forall_mem_cons]
    constructor
    · rintro ⟨⟨hy, hm⟩, hl⟩
      exact ⟨hm, hy, hl⟩
    · rintro ⟨hm, hy, hl⟩
      exact ⟨⟨hy, hm⟩, hl⟩

/-- The larger of the two numbers that `assign_comport` reads off a VM. -/
def Daemon.nmdmOf (s : Daemon) (e : VmEntry) : Int :=
  max (getNmdmNumber e.assignedComport) (getNmdmNumber (s.confOf e.conf).comport)

/-- **The maximum** of `assign_comport` is the least upper bound of all that it looks at. -/
theorem maxNmdm_le_iff (s : Daemon) (dev : List String) {x : Int} : maxNmdm s dev ≤ x ↔
    -1 ≤ x ∧ (∀ e ∈ s.vmList, s.nmdmOf e ≤ x) ∧
      (∀ name ∈ dev, nmdmSelector name = true → getNmdmNumber (some name) ≤ x) ∧ wrap32 (s.nmdmOffset - 1) ≤ x := by
  have hvms : maxNmdmOfVms s (-1) = s.vmList.foldl (fun m e => max (s.nmdmOf e) m) (-1) := by
    unfold maxNmdmOfVms Daemon.nmdmOf
    simp only [Int.max_assoc]
  have hmax : maxNmdm s dev = max ((dev.filter nmdmSelector).foldl (fun m n => max (getNmdmNumber (some n)) m)
      (maxNmdmOfVms s (-1))) (wrap32 (s.nmdmOffset - 1)) := by
    unfold maxNmdm
    dsimp only
    split <;> omega
  rw [hmax, Int.max_le, foldl_max_le fun name => getNmdmNumber (some name), hvms, foldl_max_le]
  simp only [List.mem_filter, and_imp, and_assoc]

theorem maxNmdm_range (s : Daemon) (dev : List String) : -1 ≤ maxNmdm s dev ∧ maxNmdm s dev ≤ 2147483647 := by
  have hself := (maxNmdm_le_iff s dev).mp (Int.le_refl _)
  refine ⟨hself.1, (maxNmdm_le_iff s dev).mpr ⟨by decide, fun e _ => ?_, fun name _ _ => getNmdmNumber_le _, (wrap32_range _).2⟩⟩
  exact Int.max_le.mpr ⟨getNmdmNumber_le _, getNmdmNumber_le _⟩

/-! ## A fresh number -/

/-- The number is not negative, not below `nmdm_offset`, and not that of a device in use or configured. -/
structure FreshNmdm (s : Daemon) (dev : List String) (n : Int) : Prop where
  nonneg : 0 ≤ n
  offset : s.nmdmOffset ≤ n
  configured : ∀ e ∈ s.vmList, ∀ com k, (s.confOf e.conf).comport = some com → IsNmdm "/dev/nmdm" k com → n ≠ k
  assigned : ∀ e ∈ s.vmList, ∀ com k, e.assignedComport = some com → IsNmdm "/dev/nmdm" k com → n ≠ k
  device : ∀ name ∈ dev, ∀ k, IsNmdm "nmdm" k name → n ≠ k

/-- A number whose last 32 bits are not above the maximum is another one. -/
theorem ne_of_wrap32_le {m : Int} (hm : m ≠ 2147483647) (hrange : -1 ≤ m ∧ m ≤ 2147483647)
    (h : wrap32 k ≤ m) : m + 1 ≠ (k : Int) := by
  intro heq
  have hk : wrap32 k = k := wrap32_of_range (by omega)
  omega

theorem nmdmSelector_of_B {name : String} (h : IsNumbered "nmdm" 'B' k name) : nmdmSelector name = true := by
  obtain ⟨ds, -, -, hname⟩ := h
  refine Bool.and_eq_true_iff.mpr ⟨?_, ?_⟩
  · rw [hname]
    simp
  · rw [hname, List.getLast?_concat]
    rfl

/-- **The number that is assigned** is fresh unless the maximum cannot be incremented, or there is a device of which
    only the end `A` is in `/dev`. -/
theorem freshNmdm_iff (hoff : -2147483648 ≤ s.nmdmOffset ∧ s.nmdmOffset ≤ 2147483647) :
    FreshNmdm s dev (wrap32 (maxNmdm s dev + 1)) ↔
      maxNmdm s dev ≠ 2147483647 ∧ ∀ name ∈ dev, ∀ k : Nat, IsNumbered "nmdm" 'A' k name → maxNmdm s dev + 1 ≠ k := by
  obtain ⟨-, hvms, hdev, hmoff⟩ := (maxNmdm_le_iff s dev).mp (Int.le_refl _)
  have hrange := maxNmdm_range s dev
  constructor
  · intro h
    have hm : maxNmdm s dev ≠ 2147483647 := by
      intro heq
      have hneg := h.nonneg
      rw [heq] at hneg
      exact absurd hneg (by decide)
    have hnext : wrap32 (maxNmdm s dev + 1) = maxNmdm s dev + 1 := wrap32_of_range (by omega)
    rw [hnext] at h
    exact ⟨hm, fun name hname k hk => h.device name hname k (.inl hk)⟩
  · rintro ⟨hm, hA⟩
    have hnext : wrap32 (maxNmdm s dev + 1) = maxNmdm s dev + 1 := wrap32_of_range (by omega)
    rw [hnext]
    have hnodigit : ∀ c ∈ "/dev/nmdm".toList, c.isDigit = false := by simp
    have hnodigit' : ∀ c ∈ "nmdm".toList, c.isDigit = false := by simp
    refine ⟨by omega, ?_, fun e he com k hcom hk => ?_, fun e he com k hcom hk => ?_, fun name hname k hk => ?_⟩
    · by_cases hmin : s.nmdmOffset = -2147483648
      · omega
      · rw [wrap32_of_range (by omega)] at hmoff
        omega
    · have hle : getNmdmNumber (s.confOf e.conf).comport ≤ s.nmdmOf e := Int.le_max_right _ _
      rw [hcom, getNmdmNumber_nmdm hnodigit hk] at hle
      exact ne_of_wrap32_le hm hrange (Int.le_trans hle (hvms e he))
    · have hle : getNmdmNumber e.assignedComport ≤ s.nmdmOf e := Int.le_max_left _ _
      rw [hcom, getNmdmNumber_nmdm hnodigit hk] at hle
      exact ne_of_wrap32_le hm hrange (Int.le_trans hle (hvms e he))
    · rcases hk with hk | hk
      · exact hA name hname k hk
      · have hle := hdev name hname (nmdmSelector_of_B hk)
        rw [getNmdmNumber_numbered hnodigit' rfl hk] at hle
        exact ne_of_wrap32_le hm hrange hle

/-! ## `assign_comport` -/

/-- The VM at `a` gets a console, for a setting. -/
def Daemon.assign (s : Daemon) (a : Addr) (console : String) (setting : Option String) : Daemon :=
  s.modVm a ({ · with assignedComport := some console, comportFor := setting })

/-- **`assign_comport`** fails, finds nothing to do, or assigns the device of the configuration or a new one. The
    system was asked something on the way, which the clock shows. -/
theorem assignComport_cases (hv : s.vm? a = some v) (h : assignComport env a s = .ok (r, s')) :
    ∃ n, (r < 0 ∧ s' = { s with tick := n }) ∨
      (r = 0 ∧ ((s.vmConf a).comport = none ∨ v.assignedComport.isSome) ∧ s' = s) ∨
      (r = 0 ∧ v.assignedComport = none ∧ ∃ com, (s.vmConf a).comport = some com ∧
        ((strcasecmp com "auto" ≠ 0 ∧ s' = Daemon.assign { s with tick := n } a com (some com)) ∨
          (strcasecmp com "auto" = 0 ∧ ∃ dev, env.scandir s.tick = some dev ∧
            s' = Daemon.assign { s with tick := n } a (nmdmName (wrap32 (maxNmdm s dev + 1))) (some com)))) := by
  replace h := getVm_bind h
  replace h := getVmConf_bind h
  rw [vmOf_of_vm? hv] at h
  cases hcom : (s.vmConf a).comport with
  | none =>
    simp only [hcom] at h
    cases h
    exact ⟨0, .inr (.inl ⟨rfl, .inl rfl, rfl⟩)⟩
  | some com =>
    simp only [hcom] at h
    cases hass : v.assignedComport with
    | some x =>
      rw [hass, Option.isSome_some, if_pos rfl] at h
      cases h
      exact ⟨0, .inr (.inl ⟨rfl, .inr rfl, rfl⟩)⟩
    | none =>
      rw [hass, Option.isSome_none, if_neg (by decide)] at h
      split at h
      · next hne =>
        obtain ⟨ok, s3, h3, h⟩ := of_bind h
        cases h3
        split at h
        · cases h
          exact ⟨s.tick + 1, .inl ⟨by decide, rfl⟩⟩
        · cases h
          exact ⟨s.tick + 1, .inr (.inr ⟨rfl, rfl, com, rfl, .inl ⟨hne, rfl⟩⟩)⟩
      · next hauto =>
        replace h := get_bind h
        obtain ⟨o, s4, h4, h⟩ := of_bind h
        cases h4
        cases hdev : env.scandir s.tick with
        | none =>
          simp only [hdev] at h
          cases h
          exact ⟨s.tick + 1, .inl ⟨by decide, rfl⟩⟩
        | some dev =>
          simp only [hdev] at h
          obtain ⟨ok, s5, h5, h⟩ := of_bind h
          cases h5
          split at h
          · cases h
            exact ⟨s.tick + 2, .inl ⟨by decide, rfl⟩⟩
          obtain ⟨ok, s6, h6, h⟩ := of_bind h
          cases h6
          split at h
          · cases h
            exact ⟨s.tick + 3, .inl ⟨by decide, rfl⟩⟩
          cases h
          refine ⟨s.tick + 3, .inr (.inr ⟨rfl, rfl, com, rfl, .inr ⟨not_not.mp hauto, dev, rfl, ?_⟩⟩)⟩
          rw [← hcom]
          rfl

theorem vm?_assign (hv : s.vm? a = some v) : (Daemon.assign { s with tick := n } a console setting).vm? a =
      some { v with assignedComport := some console, comportFor := setting } := by
  have hmod := vm?_modVm (s := { s with tick := n }) (a := a)
    (f := ({ · with assignedComport := some console, comportFor := setting })) fun _ => rfl
  have hv' : Daemon.vm? { s with tick := n } a = some v := hv
  rw [hv'] at hmod
  exact hmod

/-- **Automatic consoles.** The device that `assign_comport` assigns has the maximum plus one as its number, in 32-bit
    arithmetic. It is fresh unless the maximum is the largest `int`, or the end `A` of that device alone is in `/dev`. -/
theorem assigned_nmdm_fresh_iff (hv : s.vm? a = some v) (hcom : (s.vmConf a).comport = some com)
    (hauto : strcasecmp com "auto" = 0) (hnone : v.assignedComport = none)
    (hoff : -2147483648 ≤ s.nmdmOffset ∧ s.nmdmOffset ≤ 2147483647) (hdev : env.scandir s.tick = some dev)
    (h : assignComport env a s = .ok (0, s')) :
    (s'.vmOf a).assignedComport = some (nmdmName (wrap32 (maxNmdm s dev + 1))) ∧
      (FreshNmdm s dev (wrap32 (maxNmdm s dev + 1)) ↔ maxNmdm s dev ≠ 2147483647 ∧
        ∀ name ∈ dev, ∀ k : Nat, IsNumbered "nmdm" 'A' k name → maxNmdm s dev + 1 ≠ k) := by
  refine ⟨?_, freshNmdm_iff hoff⟩
  obtain ⟨n, ⟨hneg, -⟩ | ⟨-, hskip, -⟩ | ⟨-, -, com', hcom', hcase⟩⟩ := assignComport_cases hv h
  · exact absurd hneg (by decide)
  · rw [hcom, hnone] at hskip
    exact absurd hskip (by simp)
  · obtain rfl := Option.some.inj (hcom.symm.trans hcom')
    rcases hcase with ⟨hne, -⟩ | ⟨-, dev', hdev', rfl⟩
    · exact absurd hauto hne
    · obtain rfl := Option.some.inj (hdev.symm.trans hdev')
      rw [vmOf_of_vm? (vm?_assign hv)]

/-- A VM `a` that is to get its console automatically, and another one. -/
def consoleLoad (com : String) : List LoadedConf :=
  [VmConf.load { VmConf.section "a" "csm" .no with comport := some "auto" },
   VmConf.load { VmConf.section "b" "csm" .no with comport := some com }]

theorem exists_assigned {com' : String}
    (h : (assignComport env a s).map (fun x => (x.1, (x.2.vmOf a).assignedComport)) = .ok (0, some com')) :
    ∃ s', assignComport env a s = .ok (0, s') ∧ (s'.vmOf a).assignedComport = some com' := by
  cases hr : assignComport env a s with
  | error e =>
    rw [hr] at h
    cases h
  | ok x =>
    rw [hr] at h
    have hx : (x.1, (x.2.vmOf a).assignedComport) = (0, some com') := Except.ok.inj h
    exact ⟨x.2, by rw [← (Prod.mk.inj hx).1], (Prod.mk.inj hx).2⟩

/-- The other VM has the device 7: the new one is 8. -/
theorem assigned_nmdm_fresh_eight : ∃ s s', Reach (bmd .ideal) anyStep s ∧ assignComport .ideal 6 s = .ok (0, s') ∧
    (s'.vmOf 6).assignedComport = some "/dev/nmdm8B" ∧ FreshNmdm s [] 8 := by
  obtain ⟨s, hr, hv, hcom, hnone, hoff, hmax, hrun⟩ : ∃ s, Reach (bmd .ideal) anyStep s ∧ (s.vm? 6).isSome ∧
      (s.vmConf 6).comport = some "auto" ∧ (s.vmOf 6).assignedComport = none ∧ s.nmdmOffset = 0 ∧ maxNmdm s [] = 7 ∧
      (assignComport .ideal 6 s).map (fun x => (x.1, (x.2.vmOf 6).assignedComport)) = .ok (0, some "/dev/nmdm8B") :=
    exists_reach (consoleLoad "/dev/nmdm7A") [] (by decide +kernel)
  obtain ⟨v, hv⟩ := Option.isSome_iff_exists.mp hv
  obtain ⟨s', hs', hname⟩ := exists_assigned hrun
  rw [vmOf_of_vm? hv] at hnone
  have hfresh := (assigned_nmdm_fresh_iff hv hcom (by decide) hnone (by rw [hoff]; decide) rfl hs').2.mpr
  rw [hmax] at hfresh
  exact ⟨s, s', hr, hs', hname, hfresh ⟨by decide, nofun⟩⟩

/-- The other VM has the device with the largest number: the new number is negative. -/
theorem nmdm_number_overflows : ∃ s s', Reach (bmd .ideal) anyStep s ∧ (s.vmConf 6).comport = some "auto" ∧
    assignComport .ideal 6 s = .ok (0, s') ∧ (s'.vmOf 6).assignedComport = some "/dev/nmdm-2147483648B" ∧
    ¬FreshNmdm s [] (-2147483648) := by
  obtain ⟨s, hr, hcom, hrun⟩ : ∃ s, Reach (bmd .ideal) anyStep s ∧ (s.vmConf 6).comport = some "auto" ∧
      (assignComport .ideal 6 s).map (fun x => (x.1, (x.2.vmOf 6).assignedComport)) =
        .ok (0, some "/dev/nmdm-2147483648B") :=
    exists_reach (consoleLoad "/dev/nmdm2147483647A") [] (by decide +kernel)
  obtain ⟨s', hs', hname⟩ := exists_assigned hrun
  exact ⟨s, s', hr, hcom, hs', hname, fun h => absurd h.nonneg (by decide)⟩

/-! ## Consoles and settings -/

/-- The setting is `auto`. -/
def IsAuto (setting : Option String) : Prop := ∃ com, setting = some com ∧ strcasecmp com "auto" = 0

theorem not_isAuto_none : ¬IsAuto none := by
  rintro ⟨com, hcom, -⟩
  cases hcom

/-- The console is one that the setting asks for. -/
def Asks (setting console : Option String) : Prop :=
  (IsAuto setting ∧ ∃ n, console = some (nmdmName n)) ∨ (¬IsAuto setting ∧ console = setting)

theorem asks_of_auto {console : Option String} (h : IsAuto setting) :
    Asks setting console ↔ ∃ n, console = some (nmdmName n) := by
  simp [Asks, h]

theorem asks_of_not_auto {console : Option String} (h : ¬IsAuto setting) :
    Asks setting console ↔ console = setting := by
  simp [Asks, h]

/-- The child got the console that its configuration asks for, and for `auto` one that was assigned automatically. -/
def Launch.Configured (l : Launch) : Prop := Asks l.comport l.console ∧ (IsAuto l.comport → IsAuto l.assignedFor)

/-- The console is one that the setting it was assigned for asks for; a child without one has no `comport`. -/
structure Launch.Sound (l : Launch) : Prop where
  asked : Asks l.assignedFor l.console
  unset : l.assignedFor = none → l.comport = none

/-- The console is right if it was assigned for the setting in force, or by chance. -/
theorem Launch.Sound.configured_iff {l : Launch} (h : l.Sound) : l.Configured ↔
    l.assignedFor = l.comport ∨ (IsAuto l.assignedFor ∧ IsAuto l.comport) ∨
      (IsAuto l.assignedFor ∧ ¬IsAuto l.comport ∧ l.console = l.comport) := by
  constructor
  · rintro ⟨hasks, hauto⟩
    by_cases hc : IsAuto l.comport
    · exact .inr (.inl ⟨hauto hc, hc⟩)
    · have hcon := (asks_of_not_auto hc).mp hasks
      by_cases hf : IsAuto l.assignedFor
      · exact .inr (.inr ⟨hf, hc, hcon⟩)
      · exact .inl (((asks_of_not_auto hf).mp h.asked).symm.trans hcon)
  · rintro (heq | ⟨hf, hc⟩ | ⟨hf, hc, hcon⟩)
    · exact ⟨heq ▸ h.asked, fun hc => heq ▸ hc⟩
    · exact ⟨(asks_of_auto hc).mpr ((asks_of_auto hf).mp h.asked), fun _ => hf⟩
    · exact ⟨(asks_of_not_auto hc).mpr hcon, fun h => (hc h).elim⟩

/-- Every console, and every child, is sound. -/
structure Daemon.Voiced (s : Daemon) : Prop where
  nodup : (s.vmList.map (·.addr)).Nodup
  vms : ∀ v ∈ s.vmList, Asks v.comportFor v.assignedComport
  launches : ∀ l ∈ s.launches, l.Sound

/-- `assign_comport` has returned 0 for the VM. -/
def Daemon.Connected (a : Addr) (s : Daemon) : Prop :=
  ∃ v, s.vm? a = some v ∧ (v.comportFor = none → (s.vmConf a).comport = none)

theorem Muted.voiced (h : Muted s s') (hs : s.Voiced) : s'.Voiced := by
  refine ⟨?_, fun w hw => ?_, by rw [h.launches]; exact hs.launches⟩
  · have haddrs := congrArg (List.map (·.1)) h.vms
    rw [List.map_map, List.map_map] at haddrs
    rw [show s'.vmList.map (·.addr) = s.vmList.map (·.addr) from haddrs]
    exact hs.nodup
  · have hmem : w.console ∈ s.vmList.map VmEntry.console := by
      rw [← h.vms]
      exact List.mem_map_of_mem hw
    obtain ⟨v, hv, heq⟩ := List.mem_map.mp hmem
    have hasks := hs.vms v hv
    rwa [show v.comportFor = w.comportFor from congrArg (·.2.2.2) heq,
      show v.assignedComport = w.assignedComport from congrArg (·.2.2.1) heq] at hasks

theorem Muted.connected (h : Muted s s') (hs : s.Connected a) : s'.Connected a := by
  obtain ⟨v, hv, hset⟩ := hs
  have heq := h.console? a
  rw [hv] at heq
  obtain ⟨w, hw, hcon⟩ := Option.map_eq_some_iff.mp heq
  refine ⟨w, hw, fun hnone => ?_⟩
  have hconf : w.conf = v.conf := congrArg (·.2.1) hcon
  rw [show w.comportFor = v.comportFor from congrArg (·.2.2.2) hcon] at hnone
  have hcomport := hset hnone
  rw [Daemon.vmConf, vmOf_of_vm? hv] at hcomport
  rw [Daemon.vmConf, vmOf_of_vm? hw, hconf, h.comports]
  exact hcomport

/-! ### A start -/

/-- What holds from `assign_comport` on to the end of a start. -/
abbrev Connects (a : Addr) : Daemon → Daemon → Prop := Carries fun s => s.Voiced ∧ s.Connected a

theorem Muted.connects (h : Muted s s') : Connects a s s' := fun hs => ⟨h.voiced hs.1, h.connected hs.2⟩

instance : Counts (Connects a) := ⟨Muted.connects Counts.tick, Muted.connects Counts.next⟩

instance : Eventless (Connects a) := ⟨Muted.connects Eventless.events⟩

instance (k : Store) [Changes Muted k] : Changes (Connects a) k := ⟨fun h => Muted.connects (Changes.change h)⟩

instance (p : Part) [Writes Muted p b] : Writes (Connects a) p b := ⟨fun h => Muted.connects (Writes.write h)⟩

instance (st : State) : Enters (Connects a) st b := ⟨Muted.connects Enters.enter⟩

/-- **`fork`** makes a child that is sound. -/
instance (kind : ProcKind) : Preserves (Connects a) (fork env a kind) := .of_keeps fun s x s' h hs => by
  replace h := get_bind h
  cases hf : env.fork s.tick (s.procs.map (·.pid)) with
  | none =>
    simp only [hf] at h
    cases h
    have hmuted : Muted s { s with tick := s.tick + 1 } := .of_eq rfl rfl rfl
    exact hmuted.connects hs
  | some pid =>
    simp only [hf] at h
    cases h
    obtain ⟨⟨hnd, hvms, hl⟩, v, hv, hset⟩ := hs
    have hsound : (s.launch a kind).Sound := by
      refine ⟨?_, fun hnone => ?_⟩
      · show Asks (s.vmOf a).comportFor (s.vmOf a).assignedComport
        rw [vmOf_of_vm? hv]
        exact hvms v (mem_of_vm? hv)
      · refine hset ?_
        rw [← vmOf_of_vm? hv]
        exact hnone
    exact ⟨⟨hnd, hvms, List.forall_mem_cons.mpr ⟨hsound, hl⟩⟩, v, hv, hset⟩

/-- An entry is written, and its console stays sound. -/
theorem Daemon.Voiced.modVm {f : VmEntry → VmEntry} (hs : s.Voiced) (ha : ∀ v, (f v).addr = v.addr)
    (hf : ∀ v, Asks v.comportFor v.assignedComport → Asks (f v).comportFor (f v).assignedComport) :
    (s.modVm a f).Voiced := by
  refine ⟨?_, fun w hw => ?_, hs.launches⟩
  · rw [Daemon.modVm, Keyed.map_update (k := VmEntry.addr) ha s.vmList a]
    exact hs.nodup
  · obtain ⟨x, hx, rfl⟩ := List.mem_map.mp hw
    split
    · exact hf x (hs.vms x hx)
    · exact hs.vms x hx

theorem Daemon.Voiced.assign (hs : s.Voiced)
    (h : Asks setting (some console)) : (Daemon.assign { s with tick := n } a console setting).Voiced := by
  have hn : Daemon.Voiced { s with tick := n } := ⟨hs.nodup, hs.vms, hs.launches⟩
  exact hn.modVm (fun _ => rfl) fun _ _ => h

theorem Daemon.Connected.assign (hv : s.vm? a = some v) :
    (Daemon.assign { s with tick := n } a console (some com)).Connected a :=
  ⟨_, vm?_assign hv, nofun⟩

/-- **`assign_comport`** assigns what the configuration asks for. -/
theorem assignComport_voiced (hv : s.vm? a = some v) (hs : s.Voiced) (h : assignComport env a s = .ok (r, s')) :
    s'.Voiced ∧ (0 ≤ r → s'.Connected a) := by
  obtain ⟨n, ⟨hneg, rfl⟩ | ⟨-, hskip, rfl⟩ | ⟨-, -, com, hcom, hcase⟩⟩ := assignComport_cases hv h
  · have hmuted : Muted s { s with tick := n } := .of_eq rfl rfl rfl
    exact ⟨hmuted.voiced hs, fun hpos => by omega⟩
  · refine ⟨hs, fun _ => ⟨v, hv, fun hnone => ?_⟩⟩
    rcases hskip with hcom | hsome
    · exact hcom
    · -- without a setting there is no console
      have hasks := hs.vms v (mem_of_vm? hv)
      rw [hnone, asks_of_not_auto not_isAuto_none] at hasks
      rw [hasks] at hsome
      cases hsome
  · rcases hcase with ⟨hne, rfl⟩ | ⟨hauto, dev, -, rfl⟩
    · refine ⟨hs.assign ((asks_of_not_auto ?_).mpr rfl), fun _ => .assign hv⟩
      rintro ⟨com', hcom', hauto⟩
      exact hne (Option.some.inj hcom' ▸ hauto)
    · exact ⟨hs.assign ((asks_of_auto ⟨com, rfl, hauto⟩).mpr ⟨_, rfl⟩), fun _ => .assign hv⟩

/-- **A start** leaves every console and every child sound. -/
theorem startVirtualMachine_voiced (hv : s.vm? a = some v) (h : startVirtualMachine env a s = .ok (r, s'))
    (hs : s.Voiced) : s'.Voiced := by
  obtain ⟨r1, s1, h1, h⟩ := of_bind h
  have muted1 : Muted s s1 := preserved h1
  have hs1 := muted1.voiced hs
  split at h
  · cases h
    exact hs1
  have heq := muted1.console? a
  rw [hv] at heq
  obtain ⟨v1, hv1, -⟩ := Option.map_eq_some_iff.mp heq
  obtain ⟨r2, s2, h2, h⟩ := of_bind h
  obtain ⟨hs2, hcon2⟩ := assignComport_voiced hv1 hs1 h2
  split at h
  · cases h
    exact hs2
  next hpos =>
  have hrest : Preserves (Connects a) (do
      if (← setUpTaps env a) < 0 then
        return -1
      if (← startBhyve env a) < 0 then
        cleanupVirtualMachine env a
        return -1
      superviseProcess env a : Bmd.Prog Int) := by
    refine .bind inferInstance fun _ => ?_
    split
    · infer_instance
    · exact .bind inferInstance fun _ => inferInstance
  exact (hrest.keeps _ _ _ h ⟨hs2, hcon2 (by omega)⟩).1

/-! ### Runs -/

theorem voiced_kept : Kept env (fun _ => True) (fun _ => True) Daemon.Voiced where
  nodup h := h.nodup
  dry hd h := hd.muted.voiced h
  idle _ _ _ := trivial
  loaded _ _ _ _ := trivial
  reboot _ _ _ _ := trivial
  load _ ha h := by
    obtain ⟨-, rfl⟩ := allocConfs_spec _ ha
    exact ⟨h.nodup, h.vms, h.launches⟩
  create {s c m j} hw _ h := by
    refine ⟨List.nodup_cons.mpr ⟨hw.next_free, h.nodup⟩, List.forall_mem_cons.mpr ⟨?_, h.vms⟩, h.launches⟩
    exact .inr ⟨not_isAuto_none, rfl⟩
  start hv _ hr h := startVirtualMachine_voiced hv hr h
  switch {s t s' a c v r} hv _ _ hd hr h := by
    have h1 : (s.modVm a ({ · with conf := c })).Voiced := h.modVm (fun _ => rfl) fun _ => id
    have hv1 := isSome_modVm (f := ({ · with conf := c })) (fun _ => rfl) (Option.isSome_iff_exists.mpr ⟨v, hv⟩)
    obtain ⟨w, hw⟩ := Option.isSome_iff_exists.mp (hd.still.isSome hv1)
    exact startVirtualMachine_voiced hw hr (hd.muted.voiced h1)
  finish _ hr h := Muted.voiced (preserved hr) h
  read hr h := Muted.voiced (preserved hr) h
  stop _ hr h := Muted.voiced (preserved hr) h
  forget _ _ hr h := by
    rw [of_modify hr]
    exact ⟨h.nodup.sublist (List.filter_sublist.map _), fun w hw => h.vms w (List.mem_filter.mp hw).1, h.launches⟩
  mark h := h.modVm (fun _ => rfl) fun _ => id
  clear {s s' u} hr h := by
    rw [of_modify hr]
    refine ⟨?_, fun w hw => ?_, h.launches⟩
    · rw [List.map_map]
      exact h.nodup
    · obtain ⟨x, hx, rfl⟩ := List.mem_map.mp hw
      exact h.vms x hx

/-- **Configured consoles.** In every run, and for every child that was ever forked: it got the console that the
    configuration asks for exactly if the console was assigned for that setting, for `auto` in either case, or if the
    device that was assigned automatically happens to be the one that is configured now. -/
theorem console_configured_iff {l : Launch} (hr : Reach (bmd env) anyStep s) (hl : l ∈ s.launches) :
    l.Configured ↔ l.assignedFor = l.comport ∨ (IsAuto l.assignedFor ∧ IsAuto l.comport) ∨
      (IsAuto l.assignedFor ∧ ¬IsAuto l.comport ∧ l.console = l.comport) := by
  have k : Kept env _ _ Daemon.Voiced := voiced_kept
  have hvoiced : s.Voiced := by
    refine Reach.invariant (I := Daemon.Voiced) ?_ ?_ hr
    · rintro s ⟨load, off, hb⟩
      exact k.startDaemon ⟨List.nodup_nil, List.forall_mem_nil _, List.forall_mem_nil _⟩ hb
    · intro s i s' hr hs _ hst
      refine k.step (reach_wf hr).1 (fun x io e t r t' _ _ _ _ _ hw hrun ht => ?_) (fun _ _ _ _ _ _ _ _ => trivial) hst hs
      exact k.reloadVirtualMachines (fun hI => hI.modVm (fun _ => rfl) fun _ => id) hw hrun ht
  exact (hvoiced.launches l hl).configured_iff

/-- A VM with the given console. -/
def consoleConf (loader com : String) : LoadedConf :=
  { conf := { VmConf.section "a" loader .yes with comport := some com }
    plData := [{ ent := 0, method := some .bhyve, plConf := .nil }], hasMethod := rfl, checked := rfl }

/-- A VM is loaded and runs: both children got the device that is configured. -/
theorem console_configured_first : ∃ s, Reach (bmd .ideal) anyStep s ∧ s.launches.map (·.kind) = [.bhyve, .loader] ∧
    ∀ l ∈ s.launches, l.Configured := by
  obtain ⟨s, hr, hkinds, hl⟩ : ∃ s, Reach (bmd .ideal) anyStep s ∧ s.launches.map (·.kind) = [.bhyve, .loader] ∧
      ∀ l ∈ s.launches, l.assignedFor = l.comport :=
    exists_reach [consoleConf "bhyveload" "/dev/nmdm0A"] [.procExit 1 0, .event 7 {}] (by decide +kernel)
  exact ⟨s, hr, hkinds, fun l hmem => (console_configured_iff hr hmem).mpr (.inl (hl l hmem))⟩

/-- The VM ends, its `comport` is changed, and a boot command starts it again: from `TERMINATE`, with the device of the
    old configuration. -/
theorem console_outlives_setting : ∃ s, Reach (bmd .ideal) anyStep s ∧ ∃ l ∈ s.launches, l.state = .terminate ∧
    l.comport = some "/dev/nmdm2B" ∧ l.console = some "/dev/nmdm1B" ∧ ¬l.Configured := by
  obtain ⟨s, hr, l, hl, hst, hcom, hcon⟩ : ∃ s, Reach (bmd .ideal) anyStep s ∧ ∃ l ∈ s.launches,
      l.state = .terminate ∧ l.comport = some "/dev/nmdm2B" ∧ l.console = some "/dev/nmdm1B" :=
    exists_reach [consoleConf "csm" "/dev/nmdm1B"]
      ([.procExit 1 256, .event 7 {}] ++ clientSends 10 12 0 (some [consoleConf "csm" "/dev/nmdm2B"]))
      (by decide +kernel)
  refine ⟨s, hr, l, hl, hst, hcom, hcon, fun h => ?_⟩
  have hasks := h.1
  have hauto : ¬IsAuto (some "/dev/nmdm2B") := by
    rintro ⟨com, hcom', hauto⟩
    cases hcom'
    exact absurd hauto (by decide)
  rw [hcom, hcon, asks_of_not_auto hauto] at hasks
  exact absurd hasks (by decide)

end Bmd
