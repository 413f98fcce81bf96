import Bmd.Conf.Variables
import Bmd.Daemon.Vm

/-!
# `Daemon.Exec` — what the children of `vm.c` execute, and the copy of the UEFI variables

The child of `exec_bhyve` writes an array of pointers. The children of `bhyve_load` and `grub_load` write a text with one
line an argument, which `split_args` then takes apart. Memory for texts is not exhausted.
-/

namespace Bmd

/-- A text that is printed with `%s`. -/
def percentS (s : Option String) : String := s.getD "(null)"

/-! ## `bhyve` -/

/-- `UEFI_FIRMWARE`. -/
def uefiFirmware : String := localbase ++ "/share/uefi-firmware/BHYVE_UEFI.fd"

/-- `UEFI_CSM_FIRMWARE`. -/
def uefiCsmFirmware : String := localbase ++ "/share/uefi-firmware/BHYVE_UEFI_CSM.fd"

/-- `get_fbuf_option`. -/
def getFbufOption (pcid : Nat) (fb : Fbuf) : String :=
  let option := toString pcid ++ "," ++ ("fbuf,tcp=" ++ percentS fb.ipaddr ++ ":" ++ toString fb.port ++ ",w=" ++
    toString fb.width ++ ",h=" ++ toString fb.height ++ ",vga=" ++ percentS fb.vgaconf ++
    if fb.wait ≠ 0 then ",wait" else "")
  match fb.password with
  | none => option
  | some password => option ++ ",password=" ++ password

/-- `WRITE_STR(fp, "-s"); WRITE_FMT(fp, "%d,...", pcid++, ...)` in a loop. -/
def writeSlots (pcid : Nat) : List String → List String
  | [] => []
  | device :: rest => "-s" :: (toString pcid ++ "," ++ device) :: writeSlots (pcid + 1) rest

/-- The beginning of the vector. -/
def bhyveFlags (conf : VmConf) : List String :=
  ["/usr/sbin/bhyve", "-A", "-H", "-w"] ++
  (if conf.utctime then ["-u"] else []) ++
  (if conf.wiredMemory then ["-S"] else []) ++
  match conf.debugPort with
  | some port => ["-G", port]
  | none => []

/-- The options for the console, the keyboard and the firmware. -/
def bhyveSettings (v : VmEntry) (conf : VmConf) (loader : String) : List String :=
  (match v.assignedComport with
    | some com => ["-l", "com1," ++ com]
    | none => []) ++
  (match conf.keymap with
    | some keymap => ["-K", keymap]
    | none => []) ++
  if strcasecmp loader "uefi" = 0 then
    match v.varsfile with
    | some vars => ["-l", "bootrom," ++ uefiFirmware ++ "," ++ vars]
    | none => ["-l", "bootrom," ++ uefiFirmware]
  else if strcasecmp loader "csm" = 0 then ["-l", "bootrom," ++ uefiCsmFirmware]
  else []

/-- The `switch` on `conf->hostbridge`. -/
def hostbridgeArg : HostbridgeType → List String
  | .none => []
  | .intel => ["0,hostbridge"]
  | .amd => ["0,amd_hostbridge"]

/-- The devices of the four lists, in the order in which they get their slots. -/
def listedDevices (v : VmEntry) (conf : VmConf) : List String :=
  (conf.disks.map fun dc => dc.type ++ "," ++ dc.path) ++
  (conf.isoes.map fun ic => ic.type ++ "," ++ ic.path) ++
  (v.taps.map fun nc => nc.type ++ "," ++ percentS nc.tap) ++
  conf.passthrues.map fun devid => "passthru," ++ devid

/-- The options for the frame buffer and the mouse, from the slot `pcid` on. -/
def bhyveConsole (conf : VmConf) (pcid : Nat) : List String :=
  (if conf.fbuf.enable ≠ 0 then ["-s", getFbufOption pcid conf.fbuf] else []) ++
  if conf.mouse then
    ["-s", toString (if conf.fbuf.enable ≠ 0 then pcid + 1 else pcid) ++ "," ++ "xhci,tablet"]
  else []

/-- The vector that the child of `exec_bhyve` writes; an element that is `none` is a null pointer. The result is `none`
    where `strcasecmp` is given a null pointer. -/
def execBhyveArgs (v : VmEntry) (conf : VmConf) : Option (List (Option String)) := do
  let loader ← conf.loader
  return (bhyveFlags conf).map some ++
    [some "-c", conf.ncpu, some "-m", conf.memory] ++
    (bhyveSettings v conf loader ++ "-s" :: (hostbridgeArg conf.hostbridge ++ "-s" :: "1,lpc" ::
      (writeSlots 2 (listedDevices v conf) ++ bhyveConsole conf (2 + (listedDevices v conf).length) ++
        [conf.name]))).map some ++
    [none]

/-! ## Loaders -/

/-- The disk that `bhyveload` gets. -/
def VmConf.loadDisk (conf : VmConf) : Option DiskConf := if conf.install then conf.isoes.head? else conf.disks.head?

/-- The text that the child of `bhyve_load` writes. It is `none` where the path of a missing disk is read. -/
def bhyveLoadText (v : VmEntry) (conf : VmConf) : Option String := do
  let disk ← conf.loadDisk
  return "/usr/sbin/bhyveload\n" ++
    (if conf.wiredMemory then "-S\n" else "") ++
    (if conf.singleUser then "-e\n" ++ "boot_single=YES\n" else "") ++
    String.join (conf.bhyveloadEnvs.map fun env => "-e\n" ++ (env ++ "\n")) ++
    (match conf.bhyveloadLoader with
      | some loader => "-l\n" ++ (loader ++ "\n")
      | none => "") ++
    "-c\n" ++ (v.assignedComport.getD "stdio" ++ "\n") ++
    "-m\n" ++ (percentS conf.memory ++ "\n") ++
    "-d\n" ++ (disk.path ++ "\n") ++
    (conf.name ++ "\n")

/-- The text that the child of `grub_load` writes. -/
def grubLoadText (v : VmEntry) (conf : VmConf) : String :=
  localbase ++ "/sbin/grub-bhyve\n" ++
    (if conf.wiredMemory then "-S\n" else "") ++
    "-r\n" ++
    (if conf.install then "cd0\n"
      else
        match conf.grubRunPartition with
        | some partition => "hd0," ++ partition ++ "\n"
        | none => "hd0,1\n") ++
    "-M\n" ++ (percentS conf.memory ++ "\n") ++
    "-m\n" ++ (percentS v.mapfile ++ "\n") ++
    (conf.name ++ "\n")

/-- The loop of `split_args` over the results of `strsep`: the elements that are set. An empty piece is overwritten by
    the next one. -/
def splitLoop (n : Nat) : List (List Char) → List String → List String
  | [], args => args
  | piece :: rest, args =>
    if piece = [] then splitLoop n rest args
    else if n ≤ (args ++ [String.ofList piece]).length then args ++ [String.ofList piece]
    else splitLoop n rest (args ++ [String.ofList piece])

/-- `split_args`: the array, one element larger than the number of newlines. -/
def splitArgs (buf : String) : List (Option String) :=
  let n := buf.toList.count '\n'
  let args := splitLoop n (buf.toList.splitOn '\n') []
  args.map some ++ List.replicate (n + 1 - args.length) none

/-! ## UEFI variables -/

/-- `pwrite(2)`: a gap before the offset is filled with zeros. -/
def pwrite (file : List UInt8) (offset : Nat) (data : List UInt8) : List UInt8 :=
  (file ++ List.replicate (offset - file.length) 0).take offset ++ data ++ file.drop (offset + data.length)

/-- What a call of `copy_file_range` comes to: it is interrupted, it fails, or it copies `k + 1` bytes, as far as so many
    are requested. -/
inductive CopyResult where
  | eintr
  | error
  | copied (k : Nat)
  deriving DecidableEq, Repr

/-- The loop of `copy_uefi_vars` over the results of `copy_file_range`, with the offset `len` and the destination: what
    the function leaves there when it returns 0, and `none` when it returns -1. The outer `none` says that the results
    do not suffice. -/
def copyLoop (src : List UInt8) : List CopyResult → Nat → List UInt8 → Option (Option (List UInt8))
  | [], _, _ => none
  | .eintr :: results, len, out => copyLoop src results len out
  | .error :: _, _, _ => some none
  | .copied k :: results, len, out =>
    let n := min (k + 1) (src.length - len)
    let out := pwrite out len ((src.drop len).take n)
    -- Both offset arguments are `&len`, so the call advances it.
    let len := len + n
    if n > 0 then
      let len := len + n
      if len < src.length then copyLoop src results len out else some (some out)
    else some (some out)

end Bmd
