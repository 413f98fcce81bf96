import Bmd.Correctness.NvList
import Bmd.Daemon.Reload

/-!
# `Correctness.VmConf` — `compare_vm_conf`

The comparison is a chain of tests that stops at the first difference; it is zero when all of them are. Numbers
are subtracted and the difference stored in an `int`, so two numbers pass for equal when they agree modulo 2³².
-/

namespace Bmd

/-! ## Chains of tests -/

theorem firstDiff_eq_zero : ∀ {l : List Int}, firstDiff l = 0 ↔ ∀ rc ∈ l, rc = 0
  | [] => by simp [firstDiff]
  | rc :: rest => by
    rw [firstDiff, List.forall_mem_cons, ← firstDiff_eq_zero]
    by_cases h : rc = 0 <;> simp [h]

@[simp] theorem firstDiff_nil : firstDiff [] = 0 := rfl

@[simp] theorem firstDiff_zero_cons (l : List Int) : firstDiff (0 :: l) = firstDiff l := rfl

/-- One test fails at most. -/
theorem firstDiff_cons_of_rest {rc : Int} {l : List Int} (h : firstDiff l = 0) : firstDiff (rc :: l) = rc := by
  rw [firstDiff, h]
  by_cases hrc : rc = 0 <;> simp [hrc]

/-! ## Single tests -/

theorem cmpNum_eq_zero {a b : Int} : cmpNum a b = 0 ↔ (2 ^ 32 : Int) ∣ a - b := by
  rw [cmpNum, wrap32, ← Int.dvd_iff_bmod_eq_zero]
  rfl

/-- The numbers are less than 2³² apart. -/
theorem cmpNum_eq_zero_of_lt {a b : Int} (h : a - b < 2 ^ 32) (h' : b - a < 2 ^ 32) : cmpNum a b = 0 ↔ a = b := by
  rw [cmpNum_eq_zero]
  constructor
  · rintro ⟨k, hk⟩
    omega
  · rintro rfl
    simp

@[simp] theorem cmpNum_self (a : Int) : cmpNum a a = 0 := cmpNum_eq_zero.mpr (by simp)

@[simp] theorem cmpBool_eq_zero {a b : Bool} : cmpBool a b = 0 ↔ a = b := by
  cases a <;> cases b <;> decide

@[simp] theorem compareString_self (s : Option String) : compareString s s = 0 := by
  cases s with
  | none => rfl
  | some s => exact strcmp_self s

theorem compareString_eq_zero {a b : Option String} (ha : ∀ s ∈ a, CString s) (hb : ∀ s ∈ b, CString s) :
    compareString a b = 0 ↔ a = b := by
  cases a with
  | none => cases b <;> simp [compareString]
  | some a =>
    cases b with
    | none => simp [compareString]
    | some b => rw [compareString, strcmp_eq_zero (ha a rfl) (hb b rfl), Option.some_inj]

theorem cmpArray_self {α : Type} {c : α → α → Int} (h : ∀ a, c a a = 0) : ∀ l, cmpArray c l l = 0
  | [] => rfl
  | a :: l => by rw [cmpArray, if_neg (not_not.mpr (h a)), cmpArray_self h l]

@[simp] theorem compareFbuf_self (a : Fbuf) : compareFbuf a a = 0 := by simp [compareFbuf]

@[simp] theorem compareDiskConf_self (a : DiskConf) : compareDiskConf a a = 0 := by simp [compareDiskConf]

@[simp] theorem compareNetConf_self (a : NetConf) : compareNetConf a a = 0 := by simp [compareNetConf]

/-! ## A configuration and its copy -/

/-- A configuration differs from a copy with another `install` flag in that flag only. -/
theorem compareVmConf_setInstall (conf : VmConf) (b : Bool) :
    compareVmConf conf { conf with install := b } = cmpBool conf.install b := by
  unfold compareVmConf
  simp only [cmpNum_self, compareString_self, strcmp_self, compareFbuf_self, cmpBool_eq_zero.mpr,
    cmpArray_self strcmp_self, cmpArray_self compareDiskConf_self, cmpArray_self compareNetConf_self,
    firstDiff_zero_cons]
  exact firstDiff_cons_of_rest rfl

/-- The nvlists of plugins are well formed. -/
def LoadedConf.Wf (l : LoadedConf) : Prop := ∀ p ∈ l.plData, p.plConf.Wf

theorem comparePluginData_self : ∀ {l : List PluginData}, (∀ p ∈ l, p.plConf.Wf) → comparePluginData l l = 0
  | [], _ => rfl
  | p :: rest, h => by
    have hp := h p List.mem_cons_self
    have hz : compareNvlist p.plConf p.plConf = 0 := (compareNvlist_eq_zero hp hp).mpr (.of_perm (.refl _))
    unfold comparePluginData
    simp only [hz]
    exact comparePluginData_self fun q hq => h q (List.mem_cons_of_mem _ hq)

/-- An entry that was loaded from the same files as another one, whose `install` flag was changed since. -/
theorem compareVmConfEntry_reloaded {l : LoadedConf} {e : ConfEntry} {c : Addr} {b : Bool} (hl : l.Wf)
    (hconf : e.conf = { l.conf with install := b }) (hpl : e.plData = l.plData) :
    compareVmConfEntry (mkConfEntry c l) e ≠ 0 ↔ l.conf.install ≠ b := by
  have hz := comparePluginData_self hl
  unfold compareVmConfEntry
  simp only [mkConfEntry, hconf, hpl, compareVmConf_setInstall, hz]
  by_cases hb : l.conf.install = b <;> simp [hb]

end Bmd
