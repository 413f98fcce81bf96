import Bmd.Client.Control

/-!
# `Correctness.Control` — the option `-f` of `bmdctl`, and its console

Behind `-f` and its argument `control` moves `argv` on by two elements and adds two to `argc`, which is then four too
large. So tests for three arguments fail, and `getopt` goes on behind the last argument.
-/

namespace Bmd

open Lib

variable {branch : List Opt → String → ControlBranch} {cmd : String} {r : List String}

/-- The commands that take exactly a name. -/
def nameCommands : List String := ["inspect", "console", "showcomport", "reset", "poweroff", "stop", "shutdown"]

/-- **The option `-f` only selects the file**: with it, `control` takes the branch that it takes without it, and uses
    nothing behind the vector. -/
def OnlySelects (configFile prog file : String) (rest : List String) : Prop :=
  control configFile (prog :: "-f" :: file :: rest) = control file (prog :: rest) ∧
    (control configFile (prog :: "-f" :: file :: rest)).2 ≠ .overrun

/-- The count does not matter for these arguments: there are some, they are not a command with just a name, and behind a
    command with options there are not only options. -/
structure Uncounted (rest : List String) : Prop where
  nonempty : rest ≠ []
  name : rest.length = 2 → ∀ cmd ∈ rest.head?, cmd ∉ nameCommands
  boot : ∀ cmd r, rest = cmd :: r → cmd ∈ ["boot", "start", "install"] → r.all (isFlags (flagString ['c'])) = false
  run : ∀ r, rest = "run" :: r → r.all (isFlags (flagString ['i', 's'])) = false

section Flags

variable {letters : List Char}

theorem flagString_ne (c : Char) : flagString letters c ≠ some true := by
  unfold flagString
  split
  · nofun
  · nofun

/-- A branch behind a loop over `getopt` with a count that is too large. -/
theorem withName_slack (hdash : '-' ∉ letters) {slack : Nat}
    (hslack : slack ≠ 0) (args : List String) :
    withName branch (getopt (flagString letters) slack args) =
      if args.all (isFlags (flagString letters)) then .overrun
      else withName branch (getopt (flagString letters) 0 args) := by
  rw [getopt_slack flagString_ne (if_neg hdash) hslack]
  split
  · rfl
  · rfl

/-- Then the usage is shown unless there is a name. -/
theorem withName_slack_usage (hdash : '-' ∉ letters) (hbranch : ∀ opts name, branch opts name ≠ .usage) {slack : Nat}
    (hslack : slack ≠ 0) (args : List String) :
    withName branch (getopt (flagString letters) slack args) = .usage ↔
      args.all (isFlags (flagString letters)) = false ∧ withoutOperand (flagString letters) args = true := by
  rw [withName_slack hdash hslack]
  have hname := getopt_done_cons_iff flagString_ne (if_neg hdash) args
  have hover : getopt (flagString letters) 0 args ≠ .overrun := getopt_ne_overrun flagString_ne args
  generalize getopt (flagString letters) 0 args = scan at hname hover ⊢
  cases args.all (isFlags (flagString letters)) with
  | true => exact iff_of_false nofun fun h => nomatch h.1
  | false =>
    rw [if_neg Bool.false_ne_true, and_iff_right rfl, ← Bool.not_eq_false, ← hname]
    cases scan with
    | done opts operands =>
      cases operands with
      | nil => exact iff_of_true rfl (by rintro ⟨_, _, _, h⟩; cases h)
      | cons name rest => exact iff_of_false (hbranch opts name) (not_not.mpr ⟨opts, name, rest, rfl⟩)
    | illegal | missing => exact iff_of_true rfl (by rintro ⟨_, _, _, h⟩; cases h)
    | overrun => exact absurd rfl hover

theorem withName_ne_overrun (hbranch : ∀ opts name, branch opts name ≠ .overrun)
    (args : List String) : withName branch (getopt (flagString letters) 0 args) ≠ .overrun := by
  have hscan : getopt (flagString letters) 0 args ≠ .overrun := getopt_ne_overrun flagString_ne args
  generalize getopt (flagString letters) 0 args = scan at hscan ⊢
  cases scan with
  | done opts operands =>
    cases operands with
    | nil => nofun
    | cons name _ => exact hbranch opts name
  | illegal | missing => nofun
  | overrun => exact absurd rfl hscan

end Flags

/-- Behind `-f`, with a count that is four too large, `control` does the same as without. -/
def SameBranch (rest : List String) : Prop :=
  controlDispatch (rest.length + 5) rest = controlDispatch (rest.length + 1) rest ∧
    controlDispatch (rest.length + 5) rest ≠ .overrun

/-- The branches of a command with options, for both counts. -/
theorem sameBranch_options (hbranch : ∀ opts name, branch opts name ≠ .overrun)
    {letters : List Char} (hdash : '-' ∉ letters)
    (h : ∀ argc, controlDispatch argc (cmd :: r) =
      withName branch (getopt (flagString letters) (argc - 1 - (r.length + 1)) r)) :
    SameBranch (cmd :: r) ↔ r.all (isFlags (flagString letters)) = false := by
  have hfar : controlDispatch ((cmd :: r).length + 5) (cmd :: r) = if r.all (isFlags (flagString letters)) then .overrun
      else withName branch (getopt (flagString letters) 0 r) := by
    rw [h, List.length_cons, show r.length + 1 + 5 - 1 - (r.length + 1) = 4 by omega]
    exact withName_slack hdash (by decide) r
  have hnear : controlDispatch ((cmd :: r).length + 1) (cmd :: r) = withName branch (getopt (flagString letters) 0 r) := by
    rw [h, List.length_cons, show r.length + 1 + 1 - 1 - (r.length + 1) = 0 by omega]
  unfold SameBranch
  rw [hfar, hnear]
  cases r.all (isFlags (flagString letters)) with
  | true => exact iff_of_false (fun hsame => hsame.2 rfl) nofun
  | false => exact iff_of_true ⟨rfl, withName_ne_overrun hbranch r⟩ rfl

/-- A command with just a name is recognised by the count. -/
theorem controlDispatch_nameCommand (hcmd : cmd ∈ nameCommands) (argc : Nat) (r : List String) :
    controlDispatch argc (cmd :: r) ≠ .overrun ∧ (controlDispatch argc (cmd :: r) = .usage ↔ argc ≠ 3) := by
  simp only [nameCommands, List.mem_cons, List.not_mem_nil, or_false] at hcmd
  by_cases hargc : argc = 3
  · obtain rfl | rfl | rfl | rfl | rfl | rfl | rfl := hcmd <;> simp [controlDispatch, hargc]
  · obtain rfl | rfl | rfl | rfl | rfl | rfl | rfl := hcmd <;> simp [controlDispatch, hargc]

theorem sameBranch_nameCommand (hcmd : cmd ∈ nameCommands) (r : List String) :
    SameBranch (cmd :: r) ↔ r.length ≠ 1 := by
  obtain ⟨hne, hfar⟩ := controlDispatch_nameCommand hcmd ((cmd :: r).length + 5) r
  obtain ⟨-, hnear⟩ := controlDispatch_nameCommand hcmd ((cmd :: r).length + 1) r
  have husage := hfar.mpr (by rw [List.length_cons]; omega)
  unfold SameBranch
  rw [husage, eq_comm, hnear, List.length_cons]
  exact ⟨fun h => by omega, fun h => ⟨by omega, nofun⟩⟩

theorem controlDispatch_boot (hcmd : cmd ∈ ["boot", "start", "install"]) (r : List String) :
    ∃ style, ∀ argc, controlDispatch argc (cmd :: r) = bootBranch style (argc - 1 - (r.length + 1)) r := by
  simp only [List.mem_cons, List.not_mem_nil, or_false] at hcmd
  obtain rfl | rfl | rfl := hcmd
  · exact ⟨1, fun argc => by simp [controlDispatch]⟩
  · exact ⟨1, fun argc => by simp [controlDispatch]⟩
  · exact ⟨2, fun argc => by simp [controlDispatch]⟩

theorem sameBranch_boot (hcmd : cmd ∈ ["boot", "start", "install"]) (r : List String) :
    SameBranch (cmd :: r) ↔ r.all (isFlags (flagString ['c'])) = false := by
  obtain ⟨style, hstyle⟩ := controlDispatch_boot hcmd r
  refine sameBranch_options ?_ (by decide) hstyle
  nofun

theorem controlDispatch_run (argc : Nat) (r : List String) :
    controlDispatch argc ("run" :: r) = runBranch (argc - 1 - (r.length + 1)) r := by
  simp [controlDispatch]

theorem sameBranch_run (r : List String) :
    SameBranch ("run" :: r) ↔ r.all (isFlags (flagString ['i', 's'])) = false := by
  refine sameBranch_options ?_ (by decide) fun argc => controlDispatch_run argc r
  nofun

theorem controlDispatch_other (hname : cmd ∉ nameCommands) (hboot : cmd ∉ ["boot", "start", "install"])
    (hrun : cmd ≠ "run") (argc : Nat) (r : List String) : controlDispatch argc (cmd :: r) =
      if cmd = "list" then .list
      else if cmd = "showconfig" then .showconfig r.head?
      else if cmd = "showvgaport" then .showvgaport r.head?
      else .usage := by
  simp only [nameCommands, List.mem_cons, List.not_mem_nil, or_false, not_or] at hname hboot
  obtain ⟨hinspect, hconsole, hshowcomport, hreset, hpoweroff, hstop, hshutdown⟩ := hname
  obtain ⟨hboot, hstart, hinstall⟩ := hboot
  simp only [controlDispatch, hinspect, hconsole, hshowcomport, hboot, hstart, hinstall, hrun, hreset, hpoweroff, hstop,
    hshutdown, and_false, or_false, if_false]

/-- The count plays no part for the other commands. -/
theorem sameBranch_other (hname : cmd ∉ nameCommands) (hboot : cmd ∉ ["boot", "start", "install"])
    (hrun : cmd ≠ "run") (r : List String) : SameBranch (cmd :: r) := by
  unfold SameBranch
  rw [controlDispatch_other hname hboot hrun, controlDispatch_other hname hboot hrun]
  refine ⟨rfl, ?_⟩
  split
  · nofun
  · split
    · nofun
    · split
      · nofun
      · nofun

theorem uncounted_cons : Uncounted (cmd :: r) ↔
    (r.length = 1 → cmd ∉ nameCommands) ∧
      (cmd ∈ ["boot", "start", "install"] → r.all (isFlags (flagString ['c'])) = false) ∧
      (cmd = "run" → r.all (isFlags (flagString ['i', 's'])) = false) := by
  constructor
  · intro h
    refine ⟨fun hlen => ?_, fun hcmd => h.boot cmd r rfl hcmd, ?_⟩
    · exact h.name (congrArg Nat.succ hlen) cmd rfl
    · rintro rfl
      exact h.run r rfl
  · rintro ⟨hname, hboot, hrun⟩
    refine ⟨nofun, ?_, ?_, ?_⟩
    · rintro hlen _ ⟨⟩
      exact hname (Nat.succ.inj hlen)
    · rintro _ _ ⟨⟩
      exact hboot
    · rintro _ ⟨⟩
      exact hrun rfl

/-- **Behind `-f` the branch is the same exactly if the count does not matter.** -/
theorem sameBranch_iff (rest : List String) : SameBranch rest ↔ Uncounted rest := by
  cases rest with
  | nil => exact iff_of_false (fun h => h.2 rfl) fun h => h.nonempty rfl
  | cons cmd r =>
    rw [uncounted_cons]
    by_cases hname : cmd ∈ nameCommands
    · have hboot : cmd ∉ ["boot", "start", "install"] ∧ cmd ≠ "run" := by
        revert cmd
        decide
      rw [sameBranch_nameCommand hname]
      exact ⟨fun h => ⟨fun hlen => absurd hlen h, fun hcmd => absurd hcmd hboot.1, fun hcmd => absurd hcmd hboot.2⟩,
        fun h hlen => h.1 hlen hname⟩
    · by_cases hboot : cmd ∈ ["boot", "start", "install"]
      · have hrun : cmd ≠ "run" := by
          rintro rfl
          revert hboot
          decide
        rw [sameBranch_boot hboot]
        exact ⟨fun h => ⟨fun _ => hname, fun _ => h, fun hcmd => absurd hcmd hrun⟩, fun h => h.2.1 hboot⟩
      · by_cases hrun : cmd = "run"
        · subst hrun
          rw [sameBranch_run]
          exact ⟨fun h => ⟨fun _ => hname, fun hcmd => absurd hcmd hboot, fun _ => h⟩, fun h => h.2.2 rfl⟩
        · exact iff_of_true (sameBranch_other hname hboot hrun r)
            ⟨fun _ => hname, fun hcmd => absurd hcmd hboot, fun hcmd => absurd hcmd hrun⟩

/-- The arguments behind `-f` and a file for which the usage is shown: an unknown command, a command with a name,
    whatever follows, or a command with options and no name, where not only options follow. -/
structure ShowsUsage (cmd : String) (r : List String) : Prop where
  listed : cmd ∉ ["list", "showconfig", "showvgaport"]
  boot : cmd ∈ ["boot", "start", "install"] →
    r.all (isFlags (flagString ['c'])) = false ∧ withoutOperand (flagString ['c']) r = true
  run : cmd = "run" → r.all (isFlags (flagString ['i', 's'])) = false ∧ withoutOperand (flagString ['i', 's']) r = true

theorem controlDispatch_usage_iff (cmd : String) (r : List String) :
    controlDispatch ((cmd :: r).length + 5) (cmd :: r) = .usage ↔ ShowsUsage cmd r := by
  have hslack : (cmd :: r).length + 5 - 1 - (r.length + 1) = 4 := by rw [List.length_cons]; omega
  by_cases hname : cmd ∈ nameCommands
  · obtain ⟨hlisted, hboot, hrun⟩ : cmd ∉ ["list", "showconfig", "showvgaport"] ∧ cmd ∉ ["boot", "start", "install"] ∧
        cmd ≠ "run" := by
      clear hslack
      revert cmd
      decide
    refine iff_of_true ((controlDispatch_nameCommand hname _ r).2.mpr (by rw [List.length_cons]; omega)) ?_
    exact ⟨hlisted, fun h => absurd h hboot, fun h => absurd h hrun⟩
  by_cases hboot : cmd ∈ ["boot", "start", "install"]
  · obtain ⟨hlisted, hrun⟩ : cmd ∉ ["list", "showconfig", "showvgaport"] ∧ cmd ≠ "run" := by
      clear hslack hname
      revert cmd
      decide
    obtain ⟨style, hstyle⟩ := controlDispatch_boot hboot r
    rw [hstyle, hslack]
    refine (withName_slack_usage (by decide) ?_ (by decide) r).trans ?_
    · nofun
    exact ⟨fun h => ⟨hlisted, fun _ => h, fun hcmd => absurd hcmd hrun⟩, fun h => h.boot hboot⟩
  by_cases hrun : cmd = "run"
  · subst hrun
    rw [controlDispatch_run, hslack]
    refine (withName_slack_usage (by decide) ?_ (by decide) r).trans ?_
    · nofun
    exact ⟨fun h => ⟨by decide, fun hcmd => absurd hcmd hboot, fun _ => h⟩, fun h => h.run rfl⟩
  · rw [controlDispatch_other hname hboot hrun]
    refine ⟨fun h => ⟨?_, fun hcmd => absurd hcmd hboot, fun hcmd => absurd hcmd hrun⟩, fun h => ?_⟩
    · simp only [List.mem_cons, List.not_mem_nil, or_false]
      rintro (rfl | rfl | rfl) <;> cases h
    · have hlisted := h.listed
      simp only [List.mem_cons, List.not_mem_nil, or_false, not_or] at hlisted
      rw [if_neg hlisted.1, if_neg hlisted.2.1, if_neg hlisted.2.2]

theorem controlDispatch_dash (argc : Nat) (r : List String) : controlDispatch argc ("-f" :: r) = .usage := by
  simp [controlDispatch]

/-- Without another `-f` in front, `control` dispatches its arguments. -/
theorem control_eq (configFile prog : String)
    (h : ∀ file r', cmd :: r ≠ "-f" :: file :: r') :
    control configFile (prog :: cmd :: r) = (configFile, controlDispatch ((cmd :: r).length + 1) (cmd :: r)) := by
  unfold control
  rw [if_neg (by simp)]
  split
  · next heq =>
    obtain ⟨-, heq⟩ := List.cons.inj heq
    exact absurd heq (h _ _)
  · rfl

/-- **When `-f` only selects the configuration file**: exactly when the count does not matter for the arguments behind it;
    should these begin with another `-f`, then only if that names the same file and the usage is shown for the arguments
    behind it anyway. -/
theorem config_option_iff (configFile prog file : String) (rest : List String) :
    OnlySelects configFile prog file rest ↔ Uncounted rest ∧
      ∀ file' r, rest = "-f" :: file' :: r → file' = file ∧ ∃ cmd r', r = cmd :: r' ∧ ShowsUsage cmd r' := by
  have hfar : control configFile (prog :: "-f" :: file :: rest) = (file, controlDispatch (rest.length + 5) rest) := rfl
  unfold OnlySelects
  rw [hfar, ← sameBranch_iff]
  by_cases hagain : ∃ file' r, rest = "-f" :: file' :: r
  · obtain ⟨file', r, rfl⟩ := hagain
    have hnear : control file (prog :: "-f" :: file' :: r) = (file', controlDispatch (r.length + 5) r) := rfl
    have husage : controlDispatch (r.length + 5) r = .usage ↔ ∃ cmd r', r = cmd :: r' ∧ ShowsUsage cmd r' := by
      cases r with
      | nil => exact iff_of_false nofun (by rintro ⟨_, _, h, -⟩; cases h)
      | cons cmd r =>
        rw [controlDispatch_usage_iff]
        exact ⟨fun h => ⟨cmd, r, rfl, h⟩, by rintro ⟨_, _, ⟨⟩, h⟩; exact h⟩
    unfold SameBranch
    rw [controlDispatch_dash, controlDispatch_dash, hnear, Prod.mk.injEq, eq_comm, eq_comm (b := controlDispatch _ r), husage]
    constructor
    · rintro ⟨⟨hfile, hshows⟩, -⟩
      refine ⟨⟨rfl, nofun⟩, ?_⟩
      rintro _ _ ⟨⟩
      exact ⟨hfile, hshows⟩
    · rintro ⟨-, h⟩
      exact ⟨h file' r rfl, nofun⟩
  · have hno : ∀ file' r, rest ≠ "-f" :: file' :: r := fun file' r heq => hagain ⟨file', r, heq⟩
    rw [and_iff_left fun file' r heq => absurd heq (hno file' r)]
    cases rest with
    | nil => exact iff_of_false (fun h => h.2 rfl) fun h => h.2 rfl
    | cons cmd r =>
      rw [control_eq file prog hno, Prod.mk.injEq, eq_self, true_and]
      rfl

/-- **A name behind `-f`.** `bmdctl -f F shutdown a` shows the usage instead of shutting the VM down, and
    `bmdctl -f F boot -c` uses a null pointer. -/
theorem config_option_breaks :
    control "/d" ["bmdctl", "-f", "F", "shutdown", "a"] = ("F", .usage) ∧
    control "F" ["bmdctl", "shutdown", "a"] = ("F", .command "shutdown" (some "a")) ∧
    control "/d" ["bmdctl", "-f", "F", "boot", "-c"] = ("F", .overrun) ∧
    control "F" ["bmdctl", "boot", "-c"] = ("F", .usage) := by
  decide +kernel

/-! ## What is typed at a console -/

section Console

/-- How a byte is typed: the escape character twice. -/
def typed (c : UInt8) : List UInt8 := if c = tilde then [tilde, tilde] else [c]

variable (stop put : Nat → Bool) (n : Nat)

theorem consoleIn_typed (c : UInt8) (rest : List UInt8) :
    consoleIn stop put n (typed c ++ rest) =
      if stop n then [] else putChar (put (n + 1)) c (consoleIn stop put (n + 3) rest) := by
  unfold typed
  split
  · next hc =>
    rw [hc]
    simp [consoleIn, tilde]
  · next hc => cases rest <;> simp [consoleIn, hc]

/-- **Text arrives as it was typed**, and nothing after the detaching `~.`: all of it if no call fails. -/
theorem console_text_delivered (text rest : List UInt8) :
    consoleIn stop put n (text.flatMap typed ++ tilde :: 0x2e :: rest) <+: text.map .put ∧
      consoleIn (fun _ => false) (fun _ => true) n (text.flatMap typed ++ tilde :: 0x2e :: rest) = text.map .put := by
  induction text generalizing n with
  | nil => simp [consoleIn]
  | cons c text ih =>
    obtain ⟨hpre, hall⟩ := ih (n + 3)
    rw [List.flatMap_cons, List.append_assoc, List.map_cons, consoleIn_typed, consoleIn_typed]
    constructor
    · unfold putChar
      split
      · exact List.nil_prefix
      split
      · exact List.prefix_cons_inj _ |>.mpr hpre
      · exact List.nil_prefix
    · simp [putChar, hall]

end Console

end Bmd
