import Bmd.Conf.Load
import Bmd.Daemon.Exec
import Bmd.Lib.Getopt

/-!
# `Correctness.BhyveArgs` — the command line of `bhyve`

The vector that `exec_bhyve` writes is read by `bhyve` with `getopt(3)`. It is well formed when that gives back the
settings of the configuration, each device in a slot of its own, and the name of the VM as the only operand.
-/

namespace Bmd

open Lib

variable {conf : VmConf} {other : OptString} {v : VmEntry} {c : Char} {taps : List NetConf}

/-! ## How `bhyve` reads its arguments -/

/-- The option letters that `exec_bhyve` uses, with arguments and without; `other` are the remaining ones of `bhyve`. -/
def bhyveOptions (other : OptString) : OptString := fun c =>
  if c ∈ ['A', 'H', 'w', 'u', 'S'] then some false
  else if c ∈ ['G', 'c', 'm', 'l', 'K', 's'] then some true
  else other c

/-- The device of a tap interface. -/
def TapDevice (nc : NetConf) (device : String) : Prop := ∃ tap, nc.tap = some tap ∧ device = nc.type ++ "," ++ tap

/-- The host bridge, if there is to be one. -/
def bridgeDevice : HostbridgeType → List String
  | .none => []
  | .intel => ["hostbridge"]
  | .amd => ["amd_hostbridge"]

/-- The frame buffer without its slot. -/
def fbufDevice (fb : Fbuf) : String :=
  "fbuf,tcp=" ++ percentS fb.ipaddr ++ ":" ++ toString fb.port ++ ",w=" ++ toString fb.width ++ ",h=" ++
    toString fb.height ++ ",vga=" ++ percentS fb.vgaconf ++ (if fb.wait ≠ 0 then ",wait" else "") ++
    (fb.password.map (",password=" ++ ·)).getD ""

/-- The devices that are not in one of the lists. -/
def consoleDevices (conf : VmConf) : List String :=
  (if conf.fbuf.enable ≠ 0 then [fbufDevice conf.fbuf] else []) ++ if conf.mouse then ["xhci,tablet"] else []

/-- The devices of a VM in their order, given those of its taps. -/
def devices (conf : VmConf) (taps : List String) : List String :=
  bridgeDevice conf.hostbridge ++ "lpc" ::
    ((conf.disks.map fun dc => dc.type ++ "," ++ dc.path) ++ (conf.isoes.map fun ic => ic.type ++ "," ++ ic.path) ++ taps ++
      (conf.passthrues.map fun devid => "passthru," ++ devid) ++ consoleDevices conf)

/-- The firmware that a loader boots from. -/
def bootrom (v : VmEntry) (loader : String) : Option String :=
  if strcasecmp loader "uefi" = 0 then some (uefiFirmware ++ (v.varsfile.map ("," ++ ·)).getD "")
  else if strcasecmp loader "csm" = 0 then some uefiCsmFirmware
  else none

/-- The devices behind the LPC bridge. -/
def lpcDevices (v : VmEntry) (loader : String) : List String :=
  (v.assignedComport.toList.map ("com1," ++ ·)) ++ (bootrom v loader).toList.map ("bootrom," ++ ·)

/-- The argument of `-s`. -/
def slotArg (slot : Nat) (device : String) : String := toString slot ++ "," ++ device

/-- **The command line of `bhyve` is well formed.** It ends with the only null pointer, `getopt` reads the settings back,
    the devices are in slots of different numbers, and the name of the VM is the operand. -/
def WellFormedLine (other : OptString) (v : VmEntry) (conf : VmConf) : Prop :=
  ∃ (loader ncpu memory : String) (args : List String) (opts : List Opt) (taps : List String) (slots : List Nat),
    conf.loader = some loader ∧ conf.ncpu = some ncpu ∧ conf.memory = some memory ∧
    execBhyveArgs v conf = some (args.map some ++ [none]) ∧ args.head? = some "/usr/sbin/bhyve" ∧
    getopt (bhyveOptions other) 0 args.tail = .done opts [conf.name] ∧
    argsOf 'c' opts = [ncpu] ∧ argsOf 'm' opts = [memory] ∧ argsOf 'G' opts = conf.debugPort.toList ∧
    argsOf 'K' opts = conf.keymap.toList ∧ argsOf 'l' opts = lpcDevices v loader ∧
    List.Forall₂ TapDevice v.taps taps ∧ slots.Nodup ∧ slots.length = (devices conf taps).length ∧
    argsOf 's' opts = List.zipWith slotArg slots (devices conf taps)

/-! ## What `exec_bhyve` writes, as options -/

/-- An option without an argument. -/
def flag (c : Char) : Opt := ⟨c, none⟩

/-- The options at the beginning. -/
def flagOpts (conf : VmConf) : List Opt :=
  [flag 'A', flag 'H', flag 'w'] ++ (if conf.utctime then [flag 'u'] else []) ++
    (if conf.wiredMemory then [flag 'S'] else []) ++ conf.debugPort.toList.map fun port => ⟨'G', some port⟩

/-- The options for the console, the keyboard and the firmware. -/
def settingOpts (v : VmEntry) (conf : VmConf) (loader : String) : List Opt :=
  (v.assignedComport.toList.map fun com => ⟨'l', some ("com1," ++ com)⟩) ++
    (conf.keymap.toList.map fun keymap => ⟨'K', some keymap⟩) ++
    (bootrom v loader).toList.map fun rom => ⟨'l', some ("bootrom," ++ rom)⟩

/-- The options for devices, in slots from `n` on. -/
def slotOpts (n : Nat) : List String → List Opt
  | [] => []
  | device :: rest => ⟨'s', some (slotArg n device)⟩ :: slotOpts (n + 1) rest

theorem writeSlots_eq (n : Nat) (ds : List String) : writeSlots n ds = (slotOpts n ds).flatMap Opt.words := by
  induction ds generalizing n with
  | nil => rfl
  | cons d ds ih =>
    rw [writeSlots, slotOpts, List.flatMap_cons, ih]
    rfl

theorem slotOpts_append (n : Nat) (ds ds' : List String) :
    slotOpts n (ds ++ ds') = slotOpts n ds ++ slotOpts (n + ds.length) ds' := by
  induction ds generalizing n with
  | nil => rfl
  | cons d ds ih =>
    rw [List.cons_append, slotOpts, slotOpts, ih, List.length_cons, List.cons_append, Nat.add_assoc, Nat.add_comm 1]

theorem bhyveFlags_eq (conf : VmConf) : bhyveFlags conf = "/usr/sbin/bhyve" :: (flagOpts conf).flatMap Opt.words := by
  unfold bhyveFlags flagOpts
  cases conf.utctime <;> cases conf.wiredMemory <;> cases conf.debugPort <;> rfl

theorem bhyveSettings_eq (v : VmEntry) (conf : VmConf) (loader : String) :
    bhyveSettings v conf loader = (settingOpts v conf loader).flatMap Opt.words := by
  unfold bhyveSettings settingOpts bootrom
  rw [List.flatMap_append, List.flatMap_append]
  refine congrArg₂ (· ++ ·) (congrArg₂ (· ++ ·) ?_ ?_) ?_
  · cases v.assignedComport <;> rfl
  · cases conf.keymap <;> rfl
  · split
    · cases v.varsfile with
      | none => rfl
      | some vars =>
        show ["-l", "bootrom," ++ uefiFirmware ++ "," ++ vars] = ["-l", "bootrom," ++ (uefiFirmware ++ ("," ++ vars))]
        rw [String.append_assoc, String.append_assoc]
    · split <;> rfl

theorem getFbufOption_eq (n : Nat) (fb : Fbuf) : getFbufOption n fb = slotArg n (fbufDevice fb) := by
  unfold getFbufOption slotArg fbufDevice
  cases fb.password with
  | none => simp only [Option.map_none, Option.getD_none, String.append_empty]
  | some password => simp only [Option.map_some, Option.getD_some, String.append_assoc]

theorem bhyveConsole_eq (conf : VmConf) (n : Nat) :
    bhyveConsole conf n = (slotOpts n (consoleDevices conf)).flatMap Opt.words := by
  unfold bhyveConsole consoleDevices
  rw [getFbufOption_eq]
  by_cases hfbuf : conf.fbuf.enable ≠ 0
  · rw [if_pos hfbuf, if_pos hfbuf, if_pos hfbuf]
    cases conf.mouse <;> rfl
  · rw [if_neg hfbuf, if_neg hfbuf, if_neg hfbuf]
    cases conf.mouse <;> rfl

/-- The devices of the taps as they are written. -/
def tapDevices (v : VmEntry) : List String := v.taps.map fun nc => nc.type ++ "," ++ percentS nc.tap

/-- With a host bridge, everything behind the settings is written as options. -/
theorem slots_eq (v : VmEntry) (h : conf.hostbridge ≠ .none) :
    "-s" :: (hostbridgeArg conf.hostbridge ++ "-s" :: "1,lpc" :: (writeSlots 2 (listedDevices v conf) ++
      bhyveConsole conf (2 + (listedDevices v conf).length) ++ [conf.name])) =
      (slotOpts 0 (devices conf (tapDevices v))).flatMap Opt.words ++ [conf.name] := by
  rw [writeSlots_eq, bhyveConsole_eq, ← List.flatMap_append, ← slotOpts_append, devices]
  cases hb : conf.hostbridge with
  | none => exact absurd hb h
  | intel => rfl
  | amd => rfl

/-! ## The options are known -/

section Known

variable {other : OptString} {c : Char}

theorem known_flag (hc : c ∈ ['A', 'H', 'w', 'u', 'S']) : (flag c).Known (bhyveOptions other) := by
  refine ⟨?_, if_pos hc⟩
  rintro rfl
  revert hc
  decide

theorem known_arg (a : String) (hc : c ∈ ['G', 'c', 'm', 'l', 'K', 's']) :
    Opt.Known (bhyveOptions other) ⟨c, some a⟩ := by
  refine ⟨?_, ?_⟩
  · rintro rfl
    revert hc
    decide
  · have hflag : c ∉ ['A', 'H', 'w', 'u', 'S'] := by
      intro hmem
      simp only [List.mem_cons, List.not_mem_nil, or_false] at hc hmem
      obtain rfl | rfl | rfl | rfl | rfl | rfl := hc
      all_goals revert hmem; decide
    exact (if_neg hflag).trans (if_pos hc)

theorem known_flagOpts (conf : VmConf) : ∀ o ∈ flagOpts conf, o.Known (bhyveOptions other) := by
  unfold flagOpts
  simp only [List.forall_mem_append, List.forall_mem_cons, List.forall_mem_map]
  refine ⟨⟨⟨⟨known_flag (by decide), known_flag (by decide), known_flag (by decide), nofun⟩, ?_⟩, ?_⟩, ?_⟩
  · split
    · exact List.forall_mem_singleton.mpr (known_flag (by decide))
    · nofun
  · split
    · exact List.forall_mem_singleton.mpr (known_flag (by decide))
    · nofun
  · exact fun port _ => known_arg port (by decide)

theorem known_settingOpts (v : VmEntry) (conf : VmConf) (loader : String) :
    ∀ o ∈ settingOpts v conf loader, o.Known (bhyveOptions other) := by
  unfold settingOpts
  simp only [List.forall_mem_append, List.forall_mem_map]
  exact ⟨⟨fun _ _ => known_arg _ (by decide), fun _ _ => known_arg _ (by decide)⟩, fun _ _ => known_arg _ (by decide)⟩

theorem known_slotOpts (n : Nat) (ds : List String) : ∀ o ∈ slotOpts n ds, o.Known (bhyveOptions other) := by
  induction ds generalizing n with
  | nil => nofun
  | cons d ds ih => exact List.forall_mem_cons.mpr ⟨known_arg _ (by decide), ih (n + 1)⟩

end Known

/-- The options before the slots. -/
def frontOpts (v : VmEntry) (conf : VmConf) (ncpu memory loader : String) : List Opt :=
  flagOpts conf ++ [⟨'c', some ncpu⟩, ⟨'m', some memory⟩] ++ settingOpts v conf loader

theorem known_frontOpts (v : VmEntry) (conf : VmConf) (ncpu memory loader : String) :
    ∀ o ∈ frontOpts v conf ncpu memory loader, o.Known (bhyveOptions other) := by
  unfold frontOpts
  simp only [List.forall_mem_append, List.forall_mem_cons]
  exact ⟨⟨known_flagOpts conf, known_arg ncpu (by decide), known_arg memory (by decide), nofun⟩,
    known_settingOpts v conf loader⟩

/-- The vector for a configuration with all that is required. -/
theorem execBhyveArgs_eq {ncpu memory loader : String} (hloader : conf.loader = some loader)
    (hncpu : conf.ncpu = some ncpu) (hmemory : conf.memory = some memory) :
    execBhyveArgs v conf = some (("/usr/sbin/bhyve" :: ((frontOpts v conf ncpu memory loader).flatMap Opt.words ++
      "-s" :: (hostbridgeArg conf.hostbridge ++ "-s" :: "1,lpc" :: (writeSlots 2 (listedDevices v conf) ++
        bhyveConsole conf (2 + (listedDevices v conf).length) ++ [conf.name])))).map some ++ [none]) := by
  simp only [execBhyveArgs, hloader, hncpu, hmemory, bhyveFlags_eq, bhyveSettings_eq, frontOpts, Option.bind_eq_bind,
    Option.bind_some, List.flatMap_append, List.map_append, List.map_cons, List.append_assoc, List.cons_append]
  rfl

/-! ## The arguments of the options -/

theorem argsOf_slotOpts (n : Nat) (ds : List String) :
    argsOf 's' (slotOpts n ds) = List.zipWith slotArg (List.range' n ds.length) ds := by
  induction ds generalizing n with
  | nil => rfl
  | cons d ds ih =>
    rw [slotOpts, argsOf_cons, ih]
    rfl

theorem argsOf_slotOpts_of_ne (hc : 's' ≠ c) (n : Nat) (ds : List String) : argsOf c (slotOpts n ds) = [] := by
  induction ds generalizing n with
  | nil => rfl
  | cons d ds ih => rw [slotOpts, argsOf_cons, ih, if_neg hc, List.append_nil]

/-- Only `-G` has an argument among the options at the beginning. -/
theorem argsOf_flagOpts (conf : VmConf) (c : Char) :
    argsOf c (flagOpts conf) = if 'G' = c then conf.debugPort.toList else [] := by
  have hflag : ∀ (b : Bool) (d : Char), argsOf c (if b then [flag d] else []) = [] := by
    intro b d
    refine argsOf_flags fun o ho => ?_
    split at ho
    · rw [List.mem_singleton.mp ho]
      rfl
    · cases ho
  have hfixed : argsOf c [flag 'A', flag 'H', flag 'w'] = [] := argsOf_flags (by decide)
  rw [flagOpts, argsOf_append, argsOf_append, argsOf_append, hfixed, hflag, hflag, argsOf_map, List.map_id']
  rfl

/-- The arguments of the console, the keyboard and the firmware. -/
theorem argsOf_settingOpts (v : VmEntry) (conf : VmConf) (loader : String) (c : Char) :
    argsOf c (settingOpts v conf loader) = if 'l' = c then lpcDevices v loader
      else if 'K' = c then conf.keymap.toList else [] := by
  rw [settingOpts, argsOf_append, argsOf_append, argsOf_map, argsOf_map, argsOf_map, List.map_id']
  by_cases hl : 'l' = c
  · subst hl
    rw [if_pos rfl, if_pos rfl, if_pos rfl, if_neg (by decide), List.append_nil]
    rfl
  · rw [if_neg hl, if_neg hl, if_neg hl, List.append_nil, List.nil_append]

/-! ## Well-formed lines -/

/-- All options, when there is a host bridge. -/
def bhyveOpts (v : VmEntry) (conf : VmConf) (ncpu memory loader : String) : List Opt :=
  frontOpts v conf ncpu memory loader ++ slotOpts 0 (devices conf (tapDevices v))

theorem argsOf_bhyveOpts (v : VmEntry) (conf : VmConf) (ncpu memory loader : String) (hc : 's' ≠ c) :
    argsOf c (bhyveOpts v conf ncpu memory loader) =
      (if 'G' = c then conf.debugPort.toList else []) ++ (argsOf c [⟨'c', some ncpu⟩, ⟨'m', some memory⟩] ++
        if 'l' = c then lpcDevices v loader else if 'K' = c then conf.keymap.toList else []) := by
  rw [bhyveOpts, frontOpts, argsOf_append, argsOf_append, argsOf_append, argsOf_flagOpts, argsOf_settingOpts,
    argsOf_slotOpts_of_ne hc, List.append_nil, List.append_assoc]

theorem argsOf_bhyveOpts_slots (v : VmEntry) (conf : VmConf) (ncpu memory loader : String) :
    argsOf 's' (bhyveOpts v conf ncpu memory loader) = List.zipWith slotArg
      (List.range' 0 (devices conf (tapDevices v)).length) (devices conf (tapDevices v)) := by
  rw [bhyveOpts, frontOpts, argsOf_append, argsOf_append, argsOf_append, argsOf_flagOpts, argsOf_settingOpts,
    argsOf_slotOpts]
  rfl

/-- `getopt` on the vector behind its first element. -/
theorem getopt_front (other : OptString) (v : VmEntry) (conf : VmConf) (ncpu memory loader : String) (rest : List String) :
    getopt (bhyveOptions other) 0 ((frontOpts v conf ncpu memory loader).flatMap Opt.words ++ rest) =
      (getopt (bhyveOptions other) 0 rest).after (frontOpts v conf ncpu memory loader) :=
  getopt_words (known_frontOpts v conf ncpu memory loader)

theorem getopt_slots (other : OptString) (v : VmEntry) (h : conf.hostbridge ≠ .none) :
    getopt (bhyveOptions other) 0 ("-s" :: (hostbridgeArg conf.hostbridge ++ "-s" :: "1,lpc" ::
      (writeSlots 2 (listedDevices v conf) ++ bhyveConsole conf (2 + (listedDevices v conf).length) ++ [conf.name]))) =
      (getopt (bhyveOptions other) 0 [conf.name]).after (slotOpts 0 (devices conf (tapDevices v))) := by
  rw [slots_eq v h]
  exact getopt_words (known_slotOpts 0 _)

/-- Without a host bridge `-s` takes the next `-s` for its argument, and the options end there. -/
theorem getopt_bridgeless (other : OptString) (rest : List String) :
    getopt (bhyveOptions other) 0 ("-s" :: "-s" :: "1,lpc" :: rest) =
      .done [⟨'s', some "-s"⟩] ("1,lpc" :: rest) := by
  have hopt : getopt (bhyveOptions other) 0 (Opt.words ⟨'s', some "-s"⟩ ++ "1,lpc" :: rest) = _ :=
    getopt_opt (known_arg "-s" (by decide))
  exact hopt.trans (congrArg (Scan.after _) (getopt_operand (by decide)))

theorem checkConf_required (h : checkConf conf = true) :
    ∃ ncpu memory, conf.ncpu = some ncpu ∧ conf.memory = some memory := by
  unfold checkConf at h
  rw [Bool.and_eq_true, Bool.and_eq_true] at h
  obtain ⟨ncpu, hncpu⟩ := Option.isSome_iff_exists.mp h.1.1
  obtain ⟨memory, hmemory⟩ := Option.isSome_iff_exists.mp h.1.2
  exact ⟨ncpu, memory, hncpu, hmemory⟩

theorem named_of_tapDevice {ds : List String} (h : List.Forall₂ TapDevice taps ds) :
    ∀ nc ∈ taps, nc.tap.isSome = true := by
  induction h with
  | nil => nofun
  | cons hd _ ih =>
    obtain ⟨tap, htap, -⟩ := hd
    exact List.forall_mem_cons.mpr ⟨by rw [htap]; rfl, ih⟩

theorem tapDevice_of_named (h : ∀ nc ∈ taps, nc.tap.isSome = true) :
    List.Forall₂ TapDevice taps (taps.map fun nc => nc.type ++ "," ++ percentS nc.tap) := by
  induction taps with
  | nil => exact .nil
  | cons nc taps ih =>
    obtain ⟨hnc, htaps⟩ := List.forall_mem_cons.mp h
    obtain ⟨tap, htap⟩ := Option.isSome_iff_exists.mp hnc
    exact .cons ⟨tap, htap, by simp only [htap, percentS, Option.getD_some]⟩ (ih htaps)

theorem map_some_append_none_inj {l l' : List String} (h : l.map some ++ [none] = l'.map some ++ [none]) : l = l' :=
  List.map_injective_iff.mpr (fun _ _ => Option.some.inj) (List.append_cancel_right h)

/-- A well-formed line has a host bridge, and a name that is an operand. -/
theorem WellFormedLine.bridge_and_name
    (h : WellFormedLine other v conf) : conf.hostbridge ≠ .none ∧ isOperand conf.name = true := by
  obtain ⟨loader, ncpu, memory, args, opts, -, -, hloader, hncpu, hmemory, hargs, -, hopts, -⟩ := h
  rw [execBhyveArgs_eq hloader hncpu hmemory] at hargs
  have htail := congrArg List.tail (map_some_append_none_inj (Option.some.inj hargs))
  rw [← htail, List.tail_cons, getopt_front] at hopts
  obtain ⟨os, hslots, -⟩ := Scan.after_eq_done hopts
  have hbridge : conf.hostbridge ≠ .none := by
    intro hnone
    rw [hnone] at hslots
    have hend := hslots.symm.trans (getopt_bridgeless other _)
    exact absurd (congrArg List.length (Scan.done.inj hend).2) (by simp)
  refine ⟨hbridge, ?_⟩
  rw [getopt_slots other v hbridge] at hslots
  obtain ⟨os', hname, -⟩ := Scan.after_eq_done hslots
  by_contra hdash
  exact getopt_dashed (Bool.eq_false_iff.mpr hdash) os' hname

/-- **When the command line of `bhyve` is well formed**: for a configuration that passes `check_conf`, exactly when it has
    a loader and a host bridge, every tap has a name, and the name of the VM does not look like an option. -/
theorem bhyve_line_iff (other : OptString) (v : VmEntry) (conf : VmConf) (hcheck : checkConf conf = true) :
    WellFormedLine other v conf ↔ conf.loader.isSome = true ∧ conf.hostbridge ≠ .none ∧
      (∀ nc ∈ v.taps, nc.tap.isSome = true) ∧ isOperand conf.name = true := by
  obtain ⟨ncpu, memory, hncpu, hmemory⟩ := checkConf_required hcheck
  constructor
  · intro h
    obtain ⟨hbridge, hname⟩ := h.bridge_and_name
    obtain ⟨loader, _, _, _, _, _, _, hloader, -, -, -, -, -, -, -, -, -, -, htaps, -⟩ := h
    exact ⟨by rw [hloader]; rfl, hbridge, named_of_tapDevice htaps, hname⟩
  · rintro ⟨hloader, hbridge, htaps, hname⟩
    obtain ⟨loader, hloader⟩ := Option.isSome_iff_exists.mp hloader
    refine ⟨loader, ncpu, memory, _, bhyveOpts v conf ncpu memory loader, tapDevices v,
      List.range' 0 (devices conf (tapDevices v)).length, hloader, hncpu, hmemory,
      execBhyveArgs_eq hloader hncpu hmemory, rfl, ?_, argsOf_bhyveOpts v conf ncpu memory loader (by decide),
      argsOf_bhyveOpts v conf ncpu memory loader (by decide), ?_, argsOf_bhyveOpts v conf ncpu memory loader (by decide),
      argsOf_bhyveOpts v conf ncpu memory loader (by decide), tapDevice_of_named htaps, List.nodup_range',
      List.length_range', argsOf_bhyveOpts_slots v conf ncpu memory loader⟩
    · rw [List.tail_cons, getopt_front, getopt_slots other v hbridge, getopt_operand hname, Scan.after_after]
      exact congrArg (Scan.done · [conf.name]) (List.append_nil _)
    · exact (argsOf_bhyveOpts v conf ncpu memory loader (by decide)).trans (List.append_nil _)

/-- A configuration with a disk, started by `bhyveload`. -/
def linedConf (hostbridge : HostbridgeType) : VmConf :=
  { createVmConf "a" with
    fbuf := { createFbuf with enable := 0 }, ncpu := some "1", memory := some "1G", loader := some "bhyveload"
    hostbridge := hostbridge, disks := [{ type := "virtio-blk", path := "/d" }], ndisks := 1 }

/-- A VM with a tap and a console. -/
def linedVm : VmEntry :=
  { addr := 2, conf := 1, state := .terminate, pid := -1, serial := 0
    taps := [{ type := "e1000", bridge := "b", tap := some "tap0" }], mapfile := none, varsfile := none
    assignedComport := some "/dev/nmdm0A", infd := -1, outfd := -1, errfd := -1, logfd := -1, newConf := none
    method := none, plConf := none }

theorem bhyve_line_intel : checkConf (linedConf .intel) = true ∧
    WellFormedLine (fun _ => none) linedVm (linedConf .intel) :=
  ⟨rfl, (bhyve_line_iff _ _ _ rfl).mpr ⟨rfl, nofun, by decide, by decide⟩⟩

/-- A VM section with `hostbridge = none`. -/
def bridgelessSection : Cfsection :=
  { name := some "a"
    params := [.set "ncpu" "1", .set "memory" "1G", .set "loader" "bhyveload", .set "disk" "/d", .set "hostbridge" "none"]
    argdefs := [], applied := 0, duplicate := 0, owner := 0, filename := "/m" }

/-- **`hostbridge = none` breaks the command line.** `-s` is written without an argument, so that `bhyve` takes the next
    `-s` for it and everything from `1,lpc` on for operands. -/
theorem bridgeless_line_broken :
    (∃ p r, finishLoadConfig (.of []) (.init "/m") true true { Pctxt.empty with cfvms := [bridgelessSection] } = .ok p r ∧
      r.list.map (·.conf) = [linedConf .none]) ∧
    (∃ args, execBhyveArgs linedVm (linedConf .none) = some (List.map some args ++ [none]) ∧
      getopt (bhyveOptions fun _ => none) 0 args.tail = .done
        [flag 'A', flag 'H', flag 'w', flag 'u', ⟨'c', some "1"⟩, ⟨'m', some "1G"⟩, ⟨'l', some "com1,/dev/nmdm0A"⟩,
          ⟨'s', some "-s"⟩]
        ["1,lpc", "-s", "2,virtio-blk,/d", "-s", "3,e1000,tap0", "a"]) ∧
    ¬WellFormedLine (fun _ => none) linedVm (linedConf .none) := by
  have hargs : execBhyveArgs linedVm (linedConf .none) = _ := execBhyveArgs_eq rfl rfl rfl
  exact ⟨⟨_, _, rfl, by decide +kernel⟩, ⟨_, hargs, by decide +kernel⟩, fun h => h.bridge_and_name.1 rfl⟩

end Bmd
