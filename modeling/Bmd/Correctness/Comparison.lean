import Bmd.Correctness.Accumulation
import Bmd.Correctness.Ints
import Bmd.Correctness.VmConf

/-!
# `Correctness.Comparison` — what `compare_vm_conf` sees

A configuration is read as the sequence of the values that are compared. What the sequence leaves out of the settings,
and what it has in excess of them, decides whether the comparison is the equality of the settings.
-/

namespace Bmd

/-! ## Compared values -/

/-- A value that is compared; an `id` is an `int64_t`, whose difference is stored in an `int` all the same. -/
inductive Field where
  | int (n : Int)
  | id (n : Int)
  | str (s : Option String)
  | strs (l : List String)
  | disks (l : List DiskConf)
  | nets (l : List NetConf)

namespace Field

/-- The test of one field in two configurations. -/
def test : Field → Field → Int
  | .int a, .int b | .id a, .id b => cmpNum a b
  | .str a, .str b => compareString a b
  | .strs a, .strs b => cmpArray strcmp a b
  | .disks a, .disks b => cmpArray compareDiskConf a b
  | .nets a, .nets b => cmpArray compareNetConf a b
  | _, _ => 1

/-- The values that the C type of a field has. -/
def Typed : Field → Prop
  | .int n => inInt n
  | .id _ => True
  | .str s => ∀ t ∈ s, CString t
  | .strs l => ∀ t ∈ l, CString t
  | .disks l => ∀ d ∈ l, CString d.type ∧ CString d.path
  | .nets l => ∀ n ∈ l, CString n.type ∧ CString n.bridge

/-- What the test of a field looks at. -/
def seen : Field → Field
  | .id n => .id (n % 2 ^ 32)
  | .nets l => .nets (l.map ({ · with tap := none }))
  | f => f

theorem test_eq_zero {f g : Field} (hf : f.Typed) (hg : g.Typed) : f.test g = 0 ↔ f.seen = g.seen := by
  cases f with
  | int a =>
    cases g with
    | int b =>
      have hf : inInt a := hf
      have hg : inInt b := hg
      unfold inInt at hf hg
      simp only [test, seen, int.injEq]
      exact cmpNum_eq_zero_of_lt (by omega) (by omega)
    | _ => simp [test, seen]
  | id a =>
    cases g with
    | id b =>
      simp only [test, seen, id.injEq, cmpNum_eq_zero]
      omega
    | _ => simp [test, seen]
  | str a =>
    cases g with
    | str b => simpa only [test, seen, str.injEq] using compareString_eq_zero hf hg
    | _ => simp [test, seen]
  | strs a =>
    cases g with
    | strs b =>
      simp only [test, seen, strs.injEq]
      exact cmpArray_eq_zero_of_eq fun x hx y hy => strcmp_eq_zero (hf x hx) (hg y hy)
    | _ => simp [test, seen]
  | disks a =>
    cases g with
    | disks b =>
      simp only [test, seen, disks.injEq]
      refine cmpArray_eq_zero_of_eq fun x hx y hy => ?_
      simp [compareDiskConf, firstDiff_eq_zero, strcmp_eq_zero (hf x hx).1 (hg y hy).1,
        strcmp_eq_zero (hf x hx).2 (hg y hy).2]
      cases x; cases y; simp
    | _ => simp [test, seen]
  | nets a =>
    cases g with
    | nets b =>
      simp only [test, seen, nets.injEq]
      rw [← List.forall₂_eq_eq_eq, List.forall₂_map_left_iff, List.forall₂_map_right_iff]
      refine cmpArray_eq_zero fun x hx y hy => ?_
      simp [compareNetConf, firstDiff_eq_zero, strcmp_eq_zero (hf x hx).1 (hg y hy).1,
        strcmp_eq_zero (hf x hx).2 (hg y hy).2]
    | _ => simp [test, seen]

theorem tests_eq_zero : ∀ {l l' : List Field}, l.length = l'.length → (∀ f ∈ l, f.Typed) → (∀ f ∈ l', f.Typed) →
    (firstDiff (List.zipWith test l l') = 0 ↔ l.map seen = l'.map seen)
  | [], [], _, _, _ => by simp
  | f :: l, g :: l', hlen, hl, hl' => by
    obtain ⟨hf, hl⟩ := List.forall_mem_cons.mp hl
    obtain ⟨hg, hl'⟩ := List.forall_mem_cons.mp hl'
    rw [List.map_cons, List.map_cons, List.cons.injEq, ← test_eq_zero hf hg,
      ← tests_eq_zero (Nat.succ.inj hlen) hl hl', firstDiff_eq_zero, firstDiff_eq_zero, List.zipWith_cons_cons,
      List.forall_mem_cons]

end Field

/-- The values that are compared, in the order of the tests. -/
def VmConf.fields (c : VmConf) : List Field :=
  [.int c.bootDelay, .int c.loaderTimeout, .int c.stopTimeout, .int c.hostbridge.toInt, .id c.owner, .id c.group,
   .str c.debugPort, .str c.ncpu, .str c.memory, .str (some c.name), .str c.comport, .int c.boot.toInt, .str c.loader,
   .str c.loadcmd, .str c.installcmd, .str c.errLogfile, .str c.grubRunPartition, .str c.bhyveloadLoader,
   .str c.keymap, .int c.fbuf.enable, .str c.fbuf.ipaddr, .int c.fbuf.port, .int c.fbuf.width, .int c.fbuf.height,
   .str c.fbuf.vgaconf, .int c.fbuf.wait, .str c.fbuf.password, .int c.mouse.toNat, .int c.wiredMemory.toNat,
   .int c.utctime.toNat, .int c.rebootOnChange.toNat, .int c.singleUser.toNat, .int c.install.toNat, .int c.ndisks,
   .int c.nisoes, .int c.nnets, .strs c.passthrues, .disks c.disks, .disks c.isoes, .nets c.nets, .strs c.bhyveloadEnvs,
   .strs c.bhyveEnvs]

theorem compareVmConf_fields (a b : VmConf) :
    compareVmConf a b = 0 ↔ firstDiff (List.zipWith Field.test a.fields b.fields) = 0 := by
  rw [compareVmConf, compareFbuf, firstDiff_eq_zero, firstDiff_eq_zero]
  simp only [VmConf.fields, List.zipWith, List.forall_mem_cons, firstDiff_eq_zero, and_assoc, Field.test,
    List.not_mem_nil, IsEmpty.forall_iff, implies_true, true_and]
  rfl

/-! ## Settings -/

/-- What a VM section can set. The counters are no settings, nor is `single_user`, nor are the taps of networks. -/
def VmConf.settings (c : VmConf) : VmConf :=
  { c with nets := c.nets.map ({ · with tap := none }), ndisks := 0, nisoes := 0, nnets := 0, singleUser := false }

/-- The settings without the backend and the owner. -/
def VmConf.rest (c : VmConf) : VmConf := { c.settings with backend := "", owner := 0, group := 0 }

/-- What is compared and is no setting. -/
def VmConf.excess (c : VmConf) : Int × Int × Int × Bool := (c.ndisks, c.nisoes, c.nnets, c.singleUser)

/-- Every field has a value of its C type. -/
def VmConf.Typed (c : VmConf) : Prop := ∀ f ∈ c.fields, f.Typed

theorem Boot.toInt_inj {a b : Boot} : a.toInt = b.toInt ↔ a = b := by cases a <;> cases b <;> decide

theorem HostbridgeType.toInt_inj {a b : HostbridgeType} : a.toInt = b.toInt ↔ a = b := by cases a <;> cases b <;> decide

theorem VmConf.settings_eq_iff {a b : VmConf} : a.settings = b.settings ↔
    a.rest = b.rest ∧ a.backend = b.backend ∧ a.owner = b.owner ∧ a.group = b.group := by
  constructor
  · intro h
    exact ⟨congrArg ({ · with backend := "", owner := 0, group := 0 }) h, (congrArg VmConf.backend h :),
      (congrArg VmConf.owner h :), (congrArg VmConf.group h :)⟩
  · rintro ⟨h, hb, ho, hg⟩
    have hset : ∀ c : VmConf, c.settings = { c.rest with backend := c.backend, owner := c.owner, group := c.group } :=
      fun _ => rfl
    rw [hset, hset b, h, hb, ho, hg]

theorem VmConf.seen_eq_iff {a b : VmConf} : a.fields.map Field.seen = b.fields.map Field.seen ↔
    a.rest = b.rest ∧ a.excess = b.excess ∧ a.owner % 2 ^ 32 = b.owner % 2 ^ 32 ∧
      a.group % 2 ^ 32 = b.group % 2 ^ 32 := by
  have hflag : ∀ x y : Bool, ((x.toNat : Int) = y.toNat) = (x = y) := by decide
  obtain ⟨⟨⟩⟩ := a
  obtain ⟨⟨⟩⟩ := b
  simp only [fields, rest, settings, excess, List.map_cons, List.map_nil, Field.seen, List.cons.injEq, Field.int.injEq,
    Field.str.injEq, Field.id.injEq, Field.strs.injEq, Field.disks.injEq, Field.nets.injEq, Option.some.injEq,
    VmConf.mk.injEq, Fbuf.mk.injEq, Prod.mk.injEq, Boot.toInt_inj, HostbridgeType.toInt_inj, hflag]
  tauto

theorem compareVmConf_seen {a b : VmConf} (ha : a.Typed) (hb : b.Typed) :
    compareVmConf a b = 0 ↔ a.fields.map Field.seen = b.fields.map Field.seen := by
  have hlen : a.fields.length = b.fields.length := rfl
  rw [compareVmConf_fields, Field.tests_eq_zero hlen ha hb]

/-- **To compare equal is an equivalence**, whichever configuration is the new one. -/
theorem compareVmConf_equivalence : Equivalence fun a b : { c : VmConf // c.Typed } => compareVmConf a.1 b.1 = 0 := by
  refine ⟨fun a => (compareVmConf_seen a.2 a.2).mpr rfl, fun {a b} h => ?_, fun {a b c} h h' => ?_⟩
  · rw [compareVmConf_seen a.2 b.2] at h
    exact (compareVmConf_seen b.2 a.2).mpr h.symm
  · rw [compareVmConf_seen a.2 b.2] at h
    rw [compareVmConf_seen b.2 c.2] at h'
    exact (compareVmConf_seen a.2 c.2).mpr (h.trans h')

theorem cString_iff {s : String} : CString s ↔ s.toList.all (· != '\x00') = true := by simp [CString]

/-- **When the comparison is exact.** It returns 0 just for equal settings, unless the configurations agree on all that
    is compared and differ in the backend or, by a multiple of 2³², in the owner; or agree on the settings and differ in
    a counter. -/
theorem compareVmConf_exact_iff (a b : VmConf) (ha : a.Typed) (hb : b.Typed) :
    (compareVmConf a b = 0 ↔ a.settings = b.settings) ↔
      (a.rest = b.rest →
        (a.excess = b.excess ∧ a.owner % 2 ^ 32 = b.owner % 2 ^ 32 ∧ a.group % 2 ^ 32 = b.group % 2 ^ 32 ↔
          a.backend = b.backend ∧ a.owner = b.owner ∧ a.group = b.group)) := by
  rw [compareVmConf_seen ha hb, VmConf.seen_eq_iff, VmConf.settings_eq_iff]
  exact and_congr_right_iff

theorem compareVmConf_exact_memory :
    compareVmConf (createVmConf "a") { createVmConf "a" with memory := some "1G" } = 0 ↔
      (createVmConf "a").settings = VmConf.settings { createVmConf "a" with memory := some "1G" } := by
  refine (compareVmConf_exact_iff _ _ ?_ ?_).mpr fun h => absurd (congrArg VmConf.memory h) (by decide)
  all_goals
    simp [VmConf.Typed, VmConf.fields, Field.Typed, createVmConf, createFbuf]
    simp only [cString_iff]
    decide

/-- The configuration of a section with these parameters besides the required ones, on a host with a second backend. -/
def loadedWith (params : List Cfparam) : Option VmConf := do
  let env := { ownerEnv with plugins := [bhyvePlugin, { bhyvePlugin with method := some "x" }] }
  let required : List Cfparam := [.set "ncpu" "1", .set "memory" "1G", .set "loader" "uefi"]
  let (d, _) ← (execSection env [] [] 0 "a" (.ofParams (required ++ params))).toOption
  let ent ← confEntOf "a" 0 d
  return ent.conf

/-- **A change is missed, and one is reported that is none.** Another backend passes for no change; a disk that was
    replaced in the same section is a change. -/
theorem comparison_not_exact :
    (∃ a b, loadedWith [] = some a ∧ loadedWith [.set "backend" "x"] = some b ∧ compareVmConf a b = 0 ∧
      a.backend ≠ b.backend) ∧
    ∃ a b, loadedWith [.set "disk" "/b"] = some a ∧ loadedWith [.set "disk" "/a", .set "disk" "/b"] = some b ∧
      compareVmConf a b ≠ 0 ∧ a.settings = b.settings :=
  ⟨⟨_, _, rfl, rfl, by decide +kernel, by decide +kernel⟩, _, _, rfl, rfl, by decide +kernel, by decide +kernel⟩

end Bmd
