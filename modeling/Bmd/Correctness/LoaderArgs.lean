import Bmd.Conf.Load
import Bmd.Daemon.Exec
import Mathlib.Data.List.ReduceOption

/-!
# `Correctness.LoaderArgs` — the arguments of the loaders survive their encoding, or not

`bhyve_load` and `grub_load` write one argument a line, and `split_args` makes an element of every line that is not
empty. So the encoding loses empty arguments and splits those with a newline.
-/

namespace Bmd

variable {args : List String} {a : String} {n : Nat} {v : VmEntry} {conf : VmConf}

/-! ## The encoding -/

/-- One line an argument. -/
def encodeLines : List String → String
  | [] => ""
  | a :: rest => a ++ "\n" ++ encodeLines rest

theorem encodeLines_append (l l' : List String) : encodeLines (l ++ l') = encodeLines l ++ encodeLines l' := by
  induction l with
  | nil => exact String.empty_append.symm
  | cons a l ih =>
    rw [List.cons_append, encodeLines, encodeLines, ih, String.append_assoc, String.append_assoc, String.append_assoc]

theorem encodeLines_one (a : String) : encodeLines [a] = a ++ "\n" := String.append_empty

/-- The argument is one line. -/
def IsLine (a : String) : Prop := a ≠ "" ∧ '\n' ∉ a.toList

theorem IsLine.toList_ne_nil (h : IsLine a) : a.toList ≠ [] :=
  fun hnil => h.1 (String.toList_eq_nil_iff.mp hnil)

theorem toList_encodeLines_cons (a : String) (rest : List String) :
    (encodeLines (a :: rest)).toList = a.toList ++ '\n' :: (encodeLines rest).toList := by
  rw [encodeLines, String.toList_append, String.toList_append, List.append_assoc]
  rfl

/-- The pieces of a text of lines; behind the last newline there is an empty one. -/
theorem splitOn_encodeLines (h : ∀ a ∈ args, IsLine a) :
    (encodeLines args).toList.splitOn '\n' = args.map String.toList ++ [[]] := by
  induction args with
  | nil => rfl
  | cons a args ih =>
    obtain ⟨ha, hargs⟩ := List.forall_mem_cons.mp h
    have hfree : ∀ c ∈ a.toList, (c == '\n') = false := by
      intro c hc
      exact beq_false_of_ne fun heq => ha.2 (heq ▸ hc)
    rw [toList_encodeLines_cons]
    refine (List.splitOnP_append_cons_of_forall_mem hfree '\n' rfl _).trans ?_
    exact congrArg (a.toList :: ·) (ih hargs)

theorem count_encodeLines (h : ∀ a ∈ args, IsLine a) : (encodeLines args).toList.count '\n' = args.length := by
  induction args with
  | nil => rfl
  | cons a args ih =>
    obtain ⟨ha, hargs⟩ := List.forall_mem_cons.mp h
    rw [toList_encodeLines_cons, List.count_append, List.count_cons_self, ih hargs, List.count_eq_zero.mpr ha.2,
      Nat.zero_add, List.length_cons]

/-! ## `split_args` -/

/-- A piece between newlines has none. -/
theorem newline_not_mem_splitOn {text piece : List Char} (h : piece ∈ text.splitOn '\n') : '\n' ∉ piece := by
  induction text generalizing piece with
  | nil =>
    obtain rfl := List.mem_singleton.mp h
    exact List.not_mem_nil
  | cons c text ih =>
    have hsplit : (c :: text).splitOn '\n' = _ := List.splitOnP_cons_eq_if_modifyHead c text
    rw [hsplit] at h
    split at h
    · obtain rfl | hmem := List.mem_cons.mp h
      · exact List.not_mem_nil
      · exact ih hmem
    · next hc =>
      cases hrest : text.splitOn '\n' with
      | nil => exact absurd hrest (List.splitOnP_ne_nil _ _)
      | cons first rest =>
        rw [hrest] at ih
        rw [show List.splitOnP (· == '\n') text = first :: rest from hrest, List.modifyHead_cons] at h
        obtain rfl | hmem := List.mem_cons.mp h
        · rw [List.mem_cons, not_or]
          exact ⟨fun heq => hc (beq_iff_eq.mpr heq.symm), ih List.mem_cons_self⟩
        · exact ih (List.mem_cons_of_mem _ hmem)

/-- Every element that `split_args` sets is a piece that is not empty. -/
theorem mem_splitLoop {pieces : List (List Char)}
    (h : a ∈ splitLoop n pieces args) : a ∈ args ∨ ∃ piece ∈ pieces, piece ≠ [] ∧ a = String.ofList piece := by
  induction pieces generalizing args with
  | nil => exact .inl h
  | cons piece rest ih =>
    have hnew : ∀ l : List String, a ∈ l ++ [String.ofList piece] → piece ≠ [] →
        a ∈ l ∨ ∃ p ∈ piece :: rest, p ≠ [] ∧ a = String.ofList p := by
      intro l hmem hne
      obtain hl | hlast := List.mem_append.mp hmem
      · exact .inl hl
      · exact .inr ⟨piece, List.mem_cons_self, hne, List.mem_singleton.mp hlast⟩
    unfold splitLoop at h
    split at h
    · exact (ih h).imp id fun ⟨p, hp, hpa⟩ => ⟨p, List.mem_cons_of_mem _ hp, hpa⟩
    · next hne =>
      split at h
      · exact hnew args h hne
      · obtain hmem | ⟨p, hp, hpa⟩ := ih h
        · exact hnew args hmem hne
        · exact .inr ⟨p, List.mem_cons_of_mem _ hp, hpa⟩

/-- The loop over pieces that are arguments, with room for exactly these. -/
theorem splitLoop_lines {done : List String} (h : ∀ a ∈ args, IsLine a)
    (hn : done.length + args.length = n) : splitLoop n (args.map String.toList ++ [[]]) done = done ++ args := by
  induction args generalizing done with
  | nil => exact (List.append_nil done).symm
  | cons a args ih =>
    obtain ⟨ha, hargs⟩ := List.forall_mem_cons.mp h
    have hlen : (done ++ [a]).length = done.length + 1 := List.length_append
    rw [List.length_cons] at hn
    rw [List.map_cons, List.cons_append, splitLoop, if_neg ha.toList_ne_nil, String.ofList_toList]
    split
    · -- The array is full, so this was the last argument.
      obtain rfl : args = [] := List.eq_nil_of_length_eq_zero (by omega)
      rfl
    · rw [ih hargs (by omega), List.append_assoc]
      rfl

/-- The text is taken apart into these arguments, with a null pointer behind them. -/
def SplitsInto (text : String) (args : List String) : Prop :=
  ∃ k, splitArgs text = args.map some ++ List.replicate (k + 1) none

theorem reduceOption_map_some (l : List String) : (l.map some).reduceOption = l := by
  rw [List.reduceOption, List.filterMap_map, Function.id_comp, List.filterMap_some]

/-- **Which argument lists survive.** -/
theorem splitsInto_encodeLines_iff : SplitsInto (encodeLines args) args ↔ ∀ a ∈ args, IsLine a := by
  constructor
  · rintro ⟨k, h⟩ a ha
    have hset : splitLoop ((encodeLines args).toList.count '\n') ((encodeLines args).toList.splitOn '\n') [] = args := by
      have hopt := congrArg List.reduceOption h
      rwa [splitArgs, List.reduceOption_append, List.reduceOption_append, List.reduceOption_replicate_none,
        List.reduceOption_replicate_none, List.append_nil, List.append_nil, reduceOption_map_some,
        reduceOption_map_some] at hopt
    rw [← hset] at ha
    obtain hnil | ⟨piece, hpiece, hne, rfl⟩ := mem_splitLoop ha
    · exact absurd hnil List.not_mem_nil
    · refine ⟨fun hempty => hne ?_, ?_⟩
      · rw [← String.toList_ofList (l := piece), hempty]
        rfl
      · rw [String.toList_ofList]
        exact newline_not_mem_splitOn hpiece
  · intro h
    refine ⟨0, ?_⟩
    rw [splitArgs, count_encodeLines h, splitOn_encodeLines h, splitLoop_lines h (Nat.zero_add _), List.nil_append,
      Nat.add_sub_cancel_left]

/-! ## The loaders -/

/-- The arguments that `bhyve_load` means, one element an option and a value. There is no such list without a memory size
    or without the disk. -/
def bhyveLoadArgs (v : VmEntry) (conf : VmConf) : Option (List String) := do
  let memory ← conf.memory
  let disk ← conf.loadDisk
  return ["/usr/sbin/bhyveload"] ++
    (if conf.wiredMemory then ["-S"] else []) ++
    (if conf.singleUser then ["-e", "boot_single=YES"] else []) ++
    (conf.bhyveloadEnvs.flatMap fun env => ["-e", env]) ++
    (conf.bhyveloadLoader.toList.flatMap fun loader => ["-l", loader]) ++
    ["-c", v.assignedComport.getD "stdio", "-m", memory, "-d", disk.path, conf.name]

/-- The arguments that `grub_load` means. -/
def grubLoadArgs (v : VmEntry) (conf : VmConf) : Option (List String) := do
  let memory ← conf.memory
  let mapfile ← v.mapfile
  return [localbase ++ "/sbin/grub-bhyve"] ++
    (if conf.wiredMemory then ["-S"] else []) ++
    ["-r", if conf.install then "cd0" else "hd0," ++ conf.grubRunPartition.getD "1", "-M", memory, "-m", mapfile,
      conf.name]

/-- **The arguments arrive**: there are intended ones, and `split_args` makes them of the text. -/
def ArgsArrive (text : Option String) (args : Option (List String)) : Prop :=
  ∃ t l, text = some t ∧ args = some l ∧ SplitsInto t l

/-- The text of the environment definitions. -/
theorem join_envs (envs : List String) : String.join (envs.map fun env => "-e\n" ++ (env ++ "\n")) =
    encodeLines (envs.flatMap fun env => ["-e", env]) := by
  induction envs with
  | nil => rfl
  | cons env envs ih =>
    rw [List.map_cons, String.join_cons, ih, List.flatMap_cons, encodeLines_append, encodeLines, encodeLines_one,
      String.append_assoc]
    rfl

/-- `bhyve_load` writes the encoding of the arguments it means. -/
theorem bhyveLoadText_eq (h : bhyveLoadArgs v conf = some args) : bhyveLoadText v conf = some (encodeLines args) := by
  obtain ⟨memory, hmemory, h⟩ := Option.bind_eq_some_iff.mp h
  obtain ⟨disk, hdisk, h⟩ := Option.bind_eq_some_iff.mp h
  obtain rfl := Option.some.inj h
  have hlines : percentS conf.memory = memory := by rw [hmemory]; rfl
  simp only [bhyveLoadText, hdisk, hlines, encodeLines_append, join_envs, Option.bind_eq_bind, Option.bind_some]
  refine congrArg some ?_
  rw [← String.toList_inj]
  cases conf.wiredMemory <;> cases conf.singleUser <;> cases conf.bhyveloadLoader <;>
    simp [encodeLines]

theorem grubLoadText_eq (h : grubLoadArgs v conf = some args) : grubLoadText v conf = encodeLines args := by
  obtain ⟨memory, hmemory, h⟩ := Option.bind_eq_some_iff.mp h
  obtain ⟨mapfile, hmapfile, h⟩ := Option.bind_eq_some_iff.mp h
  obtain rfl := Option.some.inj h
  have hlines : percentS conf.memory = memory := by rw [hmemory]; rfl
  have hmap : percentS v.mapfile = mapfile := by rw [hmapfile]; rfl
  rw [grubLoadText, hlines, hmap, encodeLines_append, encodeLines_append, ← String.toList_inj]
  cases conf.wiredMemory <;> cases conf.install <;> cases conf.grubRunPartition <;>
    simp [encodeLines]

theorem argsArrive_iff {text : Option String} {args : Option (List String)}
    (h : ∀ l, args = some l → text = some (encodeLines l)) :
    ArgsArrive text args ↔ ∃ l, args = some l ∧ ∀ a ∈ l, IsLine a := by
  constructor
  · rintro ⟨t, l, ht, hl, hsplits⟩
    obtain rfl := Option.some.inj (ht.symm.trans (h l hl))
    exact ⟨l, hl, splitsInto_encodeLines_iff.mp hsplits⟩
  · rintro ⟨l, hl, hlines⟩
    exact ⟨_, l, h l hl, hl, splitsInto_encodeLines_iff.mpr hlines⟩

/-- **When the arguments of a loader arrive**: exactly when there are all of them, none is empty and none has a
    newline. -/
theorem loader_args_arrive_iff (v : VmEntry) (conf : VmConf) :
    (ArgsArrive (bhyveLoadText v conf) (bhyveLoadArgs v conf) ↔
      ∃ args, bhyveLoadArgs v conf = some args ∧ ∀ a ∈ args, IsLine a) ∧
    (ArgsArrive (some (grubLoadText v conf)) (grubLoadArgs v conf) ↔
      ∃ args, grubLoadArgs v conf = some args ∧ ∀ a ∈ args, IsLine a) :=
  ⟨argsArrive_iff fun _ h => bhyveLoadText_eq h, argsArrive_iff fun _ h => congrArg some (grubLoadText_eq h)⟩

/-- A VM that has not been started. -/
def idleVm : VmEntry :=
  { addr := 2, conf := 1, state := .terminate, pid := -1, serial := 0, taps := [], mapfile := none, varsfile := none
    assignedComport := none, infd := -1, outfd := -1, errfd := -1, logfd := -1, newConf := none, method := none
    plConf := none }

/-- A VM with an environment definition of three lines. -/
def injectingSection : Cfsection :=
  { name := some "a"
    params := [.set "ncpu" "1", .set "memory" "1G", .set "loader" "bhyveload", .set "disk" "/d",
               .set "bhyveload_env" "x=1\n-h\n/"]
    argdefs := [], applied := 0, duplicate := 0, owner := 1001, filename := "/m" }

/-- The configuration that is loaded for it. -/
def injectingConf : VmConf :=
  { createVmConf "a" with
    fbuf := { createFbuf with enable := 0 }, ncpu := some "1", memory := some "1G", loader := some "bhyveload"
    disks := [{ type := "virtio-blk", path := "/d" }], ndisks := 1, bhyveloadEnvs := ["x=1\n-h\n/"], owner := 1001 }

/-- **A configured value adds arguments to a loader.** An ordinary user's environment definition gives `bhyveload` the
    option `-h /`. -/
theorem loader_args_injected :
    (∃ p r, finishLoadConfig (.of []) (.init "/m") true true { Pctxt.empty with cfvms := [injectingSection] } = .ok p r ∧
      r.list.map (·.conf) = [injectingConf]) ∧
    (∃ text, bhyveLoadText idleVm injectingConf = some text ∧ (splitArgs text).reduceOption =
      ["/usr/sbin/bhyveload", "-e", "x=1", "-h", "/", "-c", "stdio", "-m", "1G", "-d", "/d", "a"]) ∧
    ¬ArgsArrive (bhyveLoadText idleVm injectingConf) (bhyveLoadArgs idleVm injectingConf) := by
  refine ⟨⟨_, _, rfl, by decide +kernel⟩, ⟨_, rfl, by decide +kernel⟩, fun h => ?_⟩
  obtain ⟨l, hl, hlines⟩ := (argsArrive_iff fun _ hargs => bhyveLoadText_eq hargs).mp h
  obtain rfl := Option.some.inj hl
  exact (hlines "x=1\n-h\n/" (by decide +kernel)).2 (by decide)

end Bmd
