import Bmd.Conf.NvList
import Mathlib.Algebra.Group.Int.Defs
import Mathlib.Algebra.Group.Nat.Defs

/-!
# `Conf.VmConf` — the configuration record of a virtual machine and its comparison

`VmConf` is `struct vm_conf` (without the variable trees, which only the parser reads). A pointer field that
may be `NULL` is an `Option`. `compareVmConf` is the comparison that decides whether a reload reboots a VM;
it is a chain of `CMP_NUM`/`CMP_STR` tests, each returning at the first difference.
-/

namespace Bmd

/-- `enum BOOT`. -/
inductive Boot where
  | no | yes | oneshot | always
  deriving DecidableEq, Repr

/-- `enum HOSTBRIDGE_TYPE`. -/
inductive HostbridgeType where
  | none | intel | amd
  deriving DecidableEq, Repr

/-- The integer value of an `enum BOOT`. -/
def Boot.toInt : Boot → Int
  | .no => 0
  | .yes => 1
  | .oneshot => 2
  | .always => 3

/-- The integer value of an `enum HOSTBRIDGE_TYPE`. -/
def HostbridgeType.toInt : HostbridgeType → Int
  | .none => 0
  | .intel => 1
  | .amd => 2

/-- `struct disk_conf` and `struct iso_conf`. -/
structure DiskConf where
  type : String
  path : String
  deriving DecidableEq, Repr

/-- `struct net_conf`: `tap` is set only on the copies that a VM's `taps` list holds. -/
structure NetConf where
  type : String
  bridge : String
  tap : Option String
  deriving DecidableEq, Repr

/-- `struct fbuf`. -/
structure Fbuf where
  enable : Int
  port : Int
  ipaddr : Option String
  vgaconf : Option String
  password : Option String
  width : Int
  height : Int
  wait : Int
  deriving DecidableEq, Repr

/-- `struct vm_conf`. -/
structure VmConf where
  fbuf : Fbuf
  disks : List DiskConf
  isoes : List DiskConf
  nets : List NetConf
  passthrues : List String
  keymap : Option String
  backend : String
  debugPort : Option String
  ncpu : Option String
  memory : Option String
  name : String
  comport : Option String
  loader : Option String
  loadcmd : Option String
  installcmd : Option String
  errLogfile : Option String
  grubRunPartition : Option String
  owner : Int
  group : Int
  boot : Boot
  hostbridge : HostbridgeType
  ndisks : Int
  nisoes : Int
  nnets : Int
  bootDelay : Int
  loaderTimeout : Int
  stopTimeout : Int
  mouse : Bool
  wiredMemory : Bool
  utctime : Bool
  rebootOnChange : Bool
  singleUser : Bool
  install : Bool
  bhyveloadLoader : Option String
  bhyveloadEnvs : List String
  bhyveEnvs : List String
  deriving DecidableEq, Repr

/-! ## Defaults -/

/-- `create_fbuf`. -/
def createFbuf : Fbuf :=
  { enable := -1, port := 5900, ipaddr := some "0.0.0.0", vgaconf := some "io", password := none, width := 1024,
    height := 768, wait := 0 }

/-- `create_vm_conf`; `load_config_file` overwrites `owner`. -/
def createVmConf (name : String) : VmConf :=
  { fbuf := createFbuf, disks := [], isoes := [], nets := [], passthrues := [], keymap := none,
    backend := "bhyve", debugPort := none, ncpu := none, memory := none, name := name, comport := none,
    loader := none, loadcmd := none, installcmd := none, errLogfile := none, grubRunPartition := none,
    owner := 0, group := -1, boot := .no, hostbridge := .intel, ndisks := 0, nisoes := 0, nnets := 0,
    bootDelay := 0, loaderTimeout := 15, stopTimeout := 300, mouse := false, wiredMemory := false,
    utctime := true, rebootOnChange := false, singleUser := false, install := false, bhyveloadLoader := none,
    bhyveloadEnvs := [], bhyveEnvs := [] }

/-- `finalize_vm_conf`. -/
def finalizeVmConf (conf : VmConf) : VmConf :=
  if conf.fbuf.enable < 0 then { conf with fbuf := { conf.fbuf with enable := 0 } } else conf

/-- `check_conf`; a configuration always has a name. -/
def checkConf (conf : VmConf) : Bool :=
  conf.ncpu.isSome && conf.memory.isSome && !(conf.backend == "bhyve" && conf.loader.isNone)

/-! ## Comparison -/

/-- The `int` that a wider difference is stored in. -/
def wrap32 (x : Int) : Int := Int.bmod x (2 ^ 32)

theorem wrap32_of_range {x : Int} (h : -2147483648 ≤ x ∧ x ≤ 2147483647) : wrap32 x = x :=
  Int.bmod_eq_of_le (by omega) (by omega)

theorem wrap32_range (x : Int) : -2147483648 ≤ wrap32 x ∧ wrap32 x ≤ 2147483647 := by
  have hlo := Int.le_bmod (x := x) (m := 2 ^ 32) (by decide)
  have hhi := Int.bmod_lt (x := x) (m := 2 ^ 32) (by decide)
  unfold wrap32
  omega

/-- `CMP_NUM`: the difference, stored in the `int` variable `rc`. -/
def cmpNum (a b : Int) : Int := wrap32 (a - b)

/-- `CMP_NUM` of two `bool` fields. -/
def cmpBool (a b : Bool) : Int := cmpNum a.toNat b.toNat

/-- `compare_string`: `NULL` is below every string. -/
def compareString : Option String → Option String → Int
  | none, none => 0
  | none, some _ => -1
  | some _, none => 1
  | some a, some b => strcmp a b

/-- A chain of tests that each `return rc` when `rc != 0`. -/
def firstDiff : List Int → Int
  | [] => 0
  | rc :: rest => if rc ≠ 0 then rc else firstDiff rest

/-- `compare_fbuf`. -/
def compareFbuf (a b : Fbuf) : Int :=
  firstDiff [
    cmpNum a.enable b.enable,
    compareString a.ipaddr b.ipaddr,
    cmpNum a.port b.port,
    cmpNum a.width b.width,
    cmpNum a.height b.height,
    compareString a.vgaconf b.vgaconf,
    cmpNum a.wait b.wait,
    compareString a.password b.password]

/-- `compare_disk_conf` and `compare_iso_conf`. -/
def compareDiskConf (a b : DiskConf) : Int :=
  firstDiff [strcmp a.type b.type, strcmp a.path b.path]

/-- `compare_net_conf`: the tap name is not part of the configuration. -/
def compareNetConf (a b : NetConf) : Int :=
  firstDiff [strcmp a.type b.type, strcmp a.bridge b.bridge]

/-- `compare_vm_conf`. -/
def compareVmConf (a b : VmConf) : Int :=
  firstDiff [
    cmpNum a.bootDelay b.bootDelay,
    cmpNum a.loaderTimeout b.loaderTimeout,
    cmpNum a.stopTimeout b.stopTimeout,
    cmpNum a.hostbridge.toInt b.hostbridge.toInt,
    cmpNum a.owner b.owner,
    cmpNum a.group b.group,
    compareString a.debugPort b.debugPort,
    compareString a.ncpu b.ncpu,
    compareString a.memory b.memory,
    strcmp a.name b.name,
    compareString a.comport b.comport,
    cmpNum a.boot.toInt b.boot.toInt,
    compareString a.loader b.loader,
    compareString a.loadcmd b.loadcmd,
    compareString a.installcmd b.installcmd,
    compareString a.errLogfile b.errLogfile,
    compareString a.grubRunPartition b.grubRunPartition,
    compareString a.bhyveloadLoader b.bhyveloadLoader,
    compareString a.keymap b.keymap,
    compareFbuf a.fbuf b.fbuf,
    cmpBool a.mouse b.mouse,
    cmpBool a.wiredMemory b.wiredMemory,
    cmpBool a.utctime b.utctime,
    cmpBool a.rebootOnChange b.rebootOnChange,
    cmpBool a.singleUser b.singleUser,
    cmpBool a.install b.install,
    cmpNum a.ndisks b.ndisks,
    cmpNum a.nisoes b.nisoes,
    cmpNum a.nnets b.nnets,
    cmpArray strcmp a.passthrues b.passthrues,
    cmpArray compareDiskConf a.disks b.disks,
    cmpArray compareDiskConf a.isoes b.isoes,
    cmpArray compareNetConf a.nets b.nets,
    cmpArray strcmp a.bhyveloadEnvs b.bhyveloadEnvs,
    cmpArray strcmp a.bhyveEnvs b.bhyveEnvs]

end Bmd
