import Bmd.Lib.Getopt

/-!
# `Client.Control` — the dispatcher of `bmdctl` and its console (`control.c`, `console.c`)

Which branch `control` takes, with which name and flags; what the branches do is left out. An argument vector is the
list of its elements, and behind the last one stands a null pointer. The count `argc` is a number of its own, since
`control` changes it.
-/

namespace Bmd

open Lib

/-- The branches of `control`. A name is `none` where the branch gets the null pointer behind the vector. -/
inductive ControlBranch where
  | usage
  | list
  | showconfig (name : Option String)
  | showvgaport (name : Option String)
  | inspect (name : Option String)
  | console (name : Option String)
  | showcomport (name : Option String)
  | boot (style : Nat) (console : Bool) (name : String)
  | run (install single : Bool) (name : String)
  | command (command : String) (name : Option String)
  /-- a null pointer is used, or what is behind it -/
  | overrun
  deriving DecidableEq, Repr

/-- An option string of letters without arguments. -/
def flagString (letters : List Char) : OptString := fun c => if c ∈ letters then some false else none

/-- The end of a loop over `getopt`: the name is the first operand, and without one, or after an illegal option, the
    usage is shown. -/
def withName (branch : List Opt → String → ControlBranch) : Scan → ControlBranch
  | .done opts (name :: _) => branch opts name
  | .done _ [] => .usage
  | .illegal => .usage
  | .missing => .usage
  | .overrun => .overrun

/-- A flag was given. -/
def hasFlag (c : Char) (opts : List Opt) : Bool := opts.any fun o => o.letter == c

/-- The branches for `boot`, `start` and `install`. -/
def bootBranch (style slack : Nat) (rest : List String) : ControlBranch :=
  withName (fun opts name => .boot style (hasFlag 'c' opts) name) (getopt (flagString ['c']) slack rest)

/-- The branch for `run`. -/
def runBranch (slack : Nat) (rest : List String) : ControlBranch :=
  withName (fun opts name => .run (hasFlag 'i' opts) (hasFlag 's' opts) name) (getopt (flagString ['i', 's']) slack rest)

/-- `control` behind the option `-f`: the elements from `argv[1]` on, and `argc`. `getopt` gets the vector from `argv[1]`
    on and `argc - 1`. -/
def controlDispatch (argc : Nat) : List String → ControlBranch
  | [] => .overrun
  | cmd :: rest =>
    let slack := argc - 1 - (rest.length + 1)
    if cmd = "list" then .list
    else if cmd = "showconfig" then .showconfig rest.head?
    else if cmd = "showvgaport" then .showvgaport rest.head?
    else if argc = 3 ∧ cmd = "inspect" then .inspect rest.head?
    else if argc = 3 ∧ cmd = "console" then .console rest.head?
    else if argc = 3 ∧ cmd = "showcomport" then .showcomport rest.head?
    else if cmd = "boot" ∨ cmd = "start" then bootBranch 1 slack rest
    else if cmd = "install" then bootBranch 2 slack rest
    else if cmd = "run" then runBranch slack rest
    else if argc = 3 ∧ (cmd = "reset" ∨ cmd = "poweroff" ∨ cmd = "stop" ∨ cmd = "shutdown") then
      .command cmd rest.head?
    else .usage

/-- `control`: the configuration file that is in effect, and the branch. -/
def control (configFile : String) (argv : List String) : String × ControlBranch :=
  if argv.length < 2 then (configFile, .usage)
  else
    match argv with
    | _ :: "-f" :: file :: rest => (file, controlDispatch (argv.length + 2) rest)
    | _ => (configFile, controlDispatch argv.length argv.tail)

/-! ## The keyboard of an attached console

What `console_in` does with the characters that `getchar` gives, up to `EOF`. The tests of `stop` and the calls of
`put_char` are numbered, so that any sequence of answers is some pair of functions. -/

/-- What `console_in` does: it writes a byte to the device, or calls `suspend`. -/
inductive ConsoleAct where
  | put (c : UInt8)
  | suspend (localOnly : Bool)
  deriving DecidableEq

/-- The escape character `~`. -/
def tilde : UInt8 := 0x7e

/-- `put_char(fd, c)`, which ends the loop when it fails, and what follows. -/
def putChar (ok : Bool) (c : UInt8) (next : List ConsoleAct) : List ConsoleAct := if ok then .put c :: next else []

/-- `console_in`. -/
def consoleIn (stop put : Nat → Bool) : Nat → List UInt8 → List ConsoleAct
  | _, [] => []
  | n, c :: rest =>
    if stop n then []
    else if c ≠ tilde then putChar (put (n + 1)) c (consoleIn stop put (n + 3) rest)
    else match rest with
      -- `EOF` is put as a character
      | [] => putChar (put (n + 1)) tilde (putChar (put (n + 2)) 0xff [])
      | c :: rest =>
        let next := consoleIn stop put (n + 3) rest
        if c = 0x2e ∨ c = 4 then []
        else if c = 0x19 then .suspend true :: next
        else if c = 0x1a then .suspend false :: next
        else if c = tilde then putChar (put (n + 1)) c next
        else putChar (put (n + 1)) tilde (putChar (put (n + 2)) c next)

end Bmd
