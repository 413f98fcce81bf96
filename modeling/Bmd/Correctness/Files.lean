import Bmd.Correctness.Child
import Bmd.Daemon.Reload
import Mathlib.Data.List.Nodup
import Mathlib.Data.List.Perm.Subperm

/-!
# `Correctness.Files` — the files that are read

`push_file` puts a file on the queue unless its real path is there already, and the queue only grows while its files
are parsed one after the other. So every file is parsed once, and the loop ends when there are no more real paths.
-/

namespace Bmd

variable {gv : Vartree} {file : String} {files : List String} {s : Shared} {real : String → Prop} {y z : Nat × Shared}
  {i : Nat} {path : String}

/-! ## Retries -/

theorem map_take_append {α β : Type} {f : α → β} {l l' : List α} {new : List β} (h : l'.map f = l.map f ++ new) :
    (l'.take l.length).map f = l.map f := by
  rw [List.map_take, h, ← List.length_map f, List.take_left]

/-- A retry starts from what there was before. -/
theorem endUp_grown {s c p : Pctxt} (hc : s.Grown real c) (h : endUp s c = some p) :
    (∀ kind, (p.sections kind).map Cfsection.plain = (s.sections kind).map Cfsection.plain) ∧ p.cffiles = s.cffiles := by
  unfold endUp at h
  split at h
  · cases h
  · obtain rfl := Option.some.inj h
    refine ⟨fun kind => ?_, ?_⟩
    · obtain ⟨new, hnew⟩ := hc.sections kind
      cases kind with
      | global | template | vm => exact map_take_append hnew
    · obtain ⟨new, hnew, -⟩ := hc.files
      show c.cffiles.take s.cffiles.length = s.cffiles
      rw [hnew, List.take_left]

theorem Pctxt.Grown.of_same {p p' : Pctxt}
    (h : (∀ kind, (p'.sections kind).map Cfsection.plain = (p.sections kind).map Cfsection.plain) ∧
      p'.cffiles = p.cffiles) : p.Grown real p' := by
  refine ⟨fun kind => ⟨[], ?_⟩, ⟨[], ?_, List.forall_mem_nil _⟩, ?_⟩
  · rw [h.1 kind, List.append_nil]
  · rw [h.2, List.append_nil]
  · rw [h.2]
    exact id

/-- The shared memory that a child for the file gets. -/
def snapshot (s : Shared) : Shared := { s with mpools := s.mpools.mpoolSnapshot }

/-- The ways an attempt can go. -/
theorem attempt_cases (sys : Sys) (gv : Vartree) (file : String) (s : Shared) :
    (attempt sys gv file s = .inl .fail ∧ (sys.fork file (snapshot s).mpools.pools.length = false ∨
      ∃ c, parseChild sys file gv (snapshot s) = (.signal, c) ∨
        ∃ n, n ≠ 0 ∧ parseChild sys file gv (snapshot s) = (.status n, c) ∧ c.mpools.mpoolGetError ≠ .alloc)) ∨
    (sys.fork file (snapshot s).mpools.pools.length = true ∧ ∃ n c, parseChild sys file gv (snapshot s) = (.status n, c) ∧
      ((n = 0 ∧ attempt sys gv file s = .inl (.done c)) ∨
        (n ≠ 0 ∧ c.mpools.mpoolGetError = .alloc ∧
          ((endUp s.pctxt c.pctxt = none ∧ attempt sys gv file s = .inl .crash) ∨
            ∃ p, endUp s.pctxt c.pctxt = some p ∧
              attempt sys gv file s = .inr { mpools := c.mpools.mpoolRollback.mpoolExpand, pctxt := p })))) := by
  have hsnap : ({ mpools := s.mpools.mpoolSnapshot, pctxt := s.pctxt } : Shared) = snapshot s := rfl
  have hlen : s.mpools.mpoolSnapshot.pools.length = (snapshot s).mpools.pools.length := rfl
  unfold attempt
  simp only [hsnap, hlen]
  cases hfork : sys.fork file (snapshot s).mpools.pools.length with
  | false => exact .inl ⟨rfl, .inl rfl⟩
  | true =>
    cases hrun : parseChild sys file gv (snapshot s) with
    | mk ex c =>
      cases ex with
      | signal => exact .inl ⟨rfl, .inr ⟨c, .inl rfl⟩⟩
      | status n =>
        by_cases hn : n = 0
        · subst hn
          exact .inr ⟨rfl, 0, c, rfl, .inl ⟨rfl, rfl⟩⟩
        · simp only [Bool.not_true, Bool.false_eq_true, if_false, if_neg hn]
          cases herr : c.mpools.mpoolGetError with
          | none | fatal => exact .inl ⟨rfl, .inr ⟨c, .inr ⟨n, hn, rfl, by rw [herr]; decide⟩⟩⟩
          | alloc =>
            refine .inr ⟨trivial, n, c, rfl, .inr ⟨hn, herr, ?_⟩⟩
            cases hend : endUp s.pctxt c.pctxt with
            | none => exact .inl ⟨rfl, rfl⟩
            | some p => exact .inr ⟨p, rfl, rfl⟩

/-- A call of `parse` that succeeds ends with a child that does, after attempts that only add to the lists. -/
theorem parse_done {sys : Sys} : ∀ {fuel : Nat} {s c : Shared}, parse sys gv file fuel s = some (.done c) →
    ∃ s', parseChild sys file gv s' = (.status 0, c) ∧ s.pctxt.Grown sys.Real s'.pctxt
  | 0, _, _, h => by cases h
  | fuel + 1, s, c, h => by
    unfold parse at h
    obtain ⟨hfail, -⟩ | ⟨-, n, c', hrun, ⟨rfl, hdone⟩ | ⟨-, -, ⟨-, hcrash⟩ | ⟨p, hp, hretry⟩⟩⟩ := attempt_cases sys gv file s
    · rw [hfail] at h
      cases h
    · rw [hdone] at h
      obtain rfl := Parsed.done.inj (Option.some.inj h)
      exact ⟨_, hrun, refl_of _ _⟩
    · rw [hcrash] at h
      cases h
    · rw [hretry] at h
      obtain ⟨s', hchild, hgrown⟩ := parse_done h
      have hfirst := parseChild_grown sys file gv (snapshot s)
      rw [hrun] at hfirst
      exact ⟨s', hchild, trans_of _ (Pctxt.Grown.of_same (endUp_grown hfirst hp)) hgrown⟩

theorem parse_grown {sys : Sys} {fuel : Nat} {s s' : Shared} (h : parse sys gv file fuel s = some (.done s')) :
    s.pctxt.Grown sys.Real s'.pctxt := by
  obtain ⟨s₁, hchild, hgrown⟩ := parse_done h
  have hlast := parseChild_grown sys file gv s₁
  rw [hchild] at hlast
  exact trans_of _ hgrown hlast

/-! ## The loop -/

/-- A turn of the loop of `load_config_file`: `parse` succeeds for the file with the index `i`, with as many retries as
    it takes. -/
def FileTurn (sys : Sys) (gv : Vartree) (file : String) (x y : Nat × Shared) : Prop :=
  x.2.pctxt.cffiles[x.1]? = some file ∧ y.1 = x.1 + 1 ∧ ∃ retries, parse sys gv file retries x.2 = some (.done y.2)

/-- Turns of the loop, with the files that they hand to `parse`. -/
inductive FileTurns (sys : Sys) (gv : Vartree) (x : Nat × Shared) : List String → Nat × Shared → Prop where
  | nil : FileTurns sys gv x [] x
  | snoc {files : List String} {y z : Nat × Shared} {file : String} (h : FileTurns sys gv x files y)
      (hturn : FileTurn sys gv file y z) : FileTurns sys gv x (files ++ [file]) z

/-- The queue, and how far the loop has come in it. -/
structure Queue (sys : Sys) (files : List String) (y : Nat × Shared) : Prop where
  index : y.1 = files.length
  handed : files = y.2.pctxt.cffiles.take y.1
  nodup : y.2.pctxt.cffiles.Nodup
  real : ∀ path ∈ y.2.pctxt.cffiles, sys.Real path

theorem Queue.turn {sys : Sys}
    (h : Queue sys files y) (hturn : FileTurn sys gv file y z) : Queue sys (files ++ [file]) z := by
  obtain ⟨hfile, hindex, retries, hparse⟩ := hturn
  have hgrown := parse_grown hparse
  obtain ⟨new, hnew, hreal⟩ := hgrown.files
  obtain ⟨hlt, -⟩ := List.getElem?_eq_some_iff.mp hfile
  refine ⟨?_, ?_, hgrown.nodup h.nodup, fun path hpath => ?_⟩
  · rw [hindex, h.index, List.length_append]
    rfl
  · rw [hindex, hnew, List.take_append_of_le_length hlt, List.take_add_one, hfile, ← h.handed]
    rfl
  · rw [hnew] at hpath
    exact (List.mem_append.mp hpath).elim (h.real path) (hreal path)

theorem FileTurns.queue {sys : Sys}
    (h0 : Queue sys [] (0, s)) (h : FileTurns sys gv (0, s) files y) : Queue sys files y := by
  induction h with
  | nil => exact h0
  | snoc _ hturn ih => exact ih.turn hturn

/-- The loop begins with the main file, if there is one. -/
theorem queue_pushFile (sys : Sys) (fn : String) (h : s.pctxt.cffiles = []) :
    Queue sys [] (0, (pushFile sys.files fn s).2) := by
  have hgrown : s.pctxt.Grown sys.Real (pushFile sys.files fn s).2.pctxt :=
    pushFile_grown (fun fn path h => ⟨fn, .inl h⟩) fn s
  obtain ⟨new, hnew, hreal⟩ := hgrown.files
  rw [h, List.nil_append] at hnew
  refine ⟨rfl, rfl, hgrown.nodup (by rw [h]; exact List.nodup_nil), fun path hpath => hreal path ?_⟩
  rwa [hnew] at hpath

theorem FileTurns.head {sys : Sys} {x : Nat × Shared}
    (hturn : FileTurn sys gv file x y) (h : FileTurns sys gv y files z) : FileTurns sys gv x (file :: files) z := by
  induction h with
  | nil => exact .snoc .nil hturn
  | snoc _ hlast ih => exact .snoc ih hlast

theorem parseFiles_nil (sys : Sys) (gv : Vartree) (retries fuel : Nat)
    (h : s.pctxt.cffiles.drop i = []) : parseFiles sys gv retries (fuel + 1) i s = some (.done s) := by
  simp only [parseFiles, h]

theorem parseFiles_cons (sys : Sys) (gv : Vartree) (retries fuel : Nat)
    {rest : List String} (h : s.pctxt.cffiles.drop i = file :: rest) : parseFiles sys gv retries (fuel + 1) i s =
      match parse sys gv file retries s with
      | some (.done s) => parseFiles sys gv retries fuel (i + 1) s
      | r => r := by
  cases hp : parse sys gv file retries s with
  | none => simp only [parseFiles, h, hp]
  | some r =>
    cases r with
    | done | fail | crash => simp only [parseFiles, h, hp]

/-- What the loop does: it makes turns until the queue ends, a call of `parse` does not succeed, or the fuel is used
    up. -/
theorem parseFiles_turns (sys : Sys) (gv : Vartree) (retries : Nat) : ∀ (fuel i : Nat) (s : Shared),
    ∃ files y, FileTurns sys gv (i, s) files y ∧
      ((parseFiles sys gv retries fuel i s = none ∧ files.length = fuel) ∨
        (parseFiles sys gv retries fuel i s = some (.done y.2) ∧ y.2.pctxt.cffiles.length ≤ y.1) ∨
        ∃ file, y.2.pctxt.cffiles[y.1]? = some file ∧
          parseFiles sys gv retries fuel i s = parse sys gv file retries y.2 ∧
          ∀ s', parse sys gv file retries y.2 ≠ some (.done s'))
  | 0, i, s => ⟨[], (i, s), .nil, .inl ⟨rfl, rfl⟩⟩
  | fuel + 1, i, s => by
    cases hdrop : s.pctxt.cffiles.drop i with
    | nil =>
      rw [parseFiles_nil sys gv retries fuel hdrop]
      exact ⟨[], (i, s), .nil, .inr (.inl ⟨rfl, List.drop_eq_nil_iff.mp hdrop⟩)⟩
    | cons file rest =>
      rw [parseFiles_cons sys gv retries fuel hdrop]
      have hfile : s.pctxt.cffiles[i]? = some file := by
        rw [← Nat.add_zero i, ← List.getElem?_drop, hdrop]
        rfl
      by_cases hdone : ∃ s', parse sys gv file retries s = some (.done s')
      · obtain ⟨s', hs'⟩ := hdone
        obtain ⟨files, y, hturns, hend⟩ := parseFiles_turns sys gv retries fuel (i + 1) s'
        have hturn : FileTurn sys gv file (i, s) (i + 1, s') := ⟨hfile, rfl, retries, hs'⟩
        refine ⟨file :: files, y, hturns.head hturn, ?_⟩
        simp only [hs']
        refine hend.imp (fun h => ⟨h.1, ?_⟩) id
        rw [List.length_cons, h.2]
      · refine ⟨[], (i, s), .nil, .inr (.inr ⟨file, hfile, ?_, fun s' hs' => hdone ⟨s', hs'⟩⟩)⟩
        simp only
        split
        · next s' hs' => exact absurd ⟨s', hs'⟩ hdone
        · rfl

/-- **Include processing terminates and visits each file once.** Let `real` list the real paths that there are. The loop
    over the files, started with any main file, makes no more turns than that; it does not end only if a call of `parse`
    does not. The files that it has handed to `parse` are those at the beginning of the queue, in its order, and no
    file is in the queue twice. When the loop ends, all of them have been handed to `parse`. -/
theorem includes_visited_once (sys : Sys) (gv : Vartree) (real : List String) (hreal : ∀ path, sys.Real path → path ∈ real)
    (fn : String) (s₀ : Shared) (h₀ : s₀.pctxt.cffiles = []) :
    (∀ retries fuel, real.length < fuel → parseFiles sys gv retries fuel 0 (pushFile sys.files fn s₀).2 = none →
      ∃ files y file, FileTurns sys gv (0, (pushFile sys.files fn s₀).2) files y ∧
        y.2.pctxt.cffiles[y.1]? = some file ∧ parse sys gv file retries y.2 = none) ∧
    (∀ files y, FileTurns sys gv (0, (pushFile sys.files fn s₀).2) files y →
      files.length ≤ real.length ∧ y.1 = files.length ∧ files = y.2.pctxt.cffiles.take y.1 ∧
        y.2.pctxt.cffiles.Nodup) ∧
    ∀ retries fuel s, parseFiles sys gv retries fuel 0 (pushFile sys.files fn s₀).2 = some (.done s) →
      ∃ n, FileTurns sys gv (0, (pushFile sys.files fn s₀).2) s.pctxt.cffiles (n, s) := by
  have h0 := queue_pushFile sys fn h₀
  have hbound : ∀ files y, FileTurns sys gv (0, (pushFile sys.files fn s₀).2) files y →
      files.length ≤ real.length := by
    intro files y h
    have hqueue := h.queue h0
    have hsub : files ⊆ real := fun path hpath => by
      rw [hqueue.handed] at hpath
      exact hreal path (hqueue.real path (List.mem_of_mem_take hpath))
    have hnodup : files.Nodup := by
      rw [hqueue.handed]
      exact hqueue.nodup.sublist (List.take_sublist _ _)
    exact (List.subperm_of_subset hnodup hsub).length_le
  refine ⟨fun retries fuel hfuel hnone => ?_, fun files y h => ?_, fun retries fuel s hdone => ?_⟩
  · obtain ⟨files, y, hturns, ⟨-, hlen⟩ | ⟨hsome, -⟩ | ⟨file, hfile, hsame, -⟩⟩ :=
      parseFiles_turns sys gv retries fuel 0 (pushFile sys.files fn s₀).2
    · exact absurd (hlen ▸ hbound files y hturns) (Nat.not_le.mpr hfuel)
    · rw [hnone] at hsome
      cases hsome
    · exact ⟨files, y, file, hturns, hfile, hsame.symm.trans hnone⟩
  · have hqueue := h.queue h0
    exact ⟨hbound files y h, hqueue.index, hqueue.handed, hqueue.nodup⟩
  · obtain ⟨files, y, hturns, ⟨hnone, -⟩ | ⟨hsome, hend⟩ | ⟨file, -, hsame, hnot⟩⟩ :=
      parseFiles_turns sys gv retries fuel 0 (pushFile sys.files fn s₀).2
    · rw [hdone] at hnone
      cases hnone
    · rw [hdone] at hsome
      obtain rfl := Parsed.done.inj (Option.some.inj hsome)
      have hqueue := hturns.queue h0
      have hfiles : files = y.2.pctxt.cffiles := hqueue.handed.trans (List.take_of_length_le hend)
      exact ⟨y.1, hfiles ▸ hturns⟩
    · exact absurd (hsame.symm.trans hdone) (hnot s)

theorem FileView.of_realpath {files : List (String × UInt32 × List Token)} {fn : String}
    (h : (FileView.of files).realpath fn = some path) : path ∈ files.map (·.1) := by
  change (if files.any (·.1 == fn) then some fn else none) = some path at h
  split at h
  · next hany =>
    obtain rfl := Option.some.inj h
    obtain ⟨f, hf, heq⟩ := List.any_eq_true.mp hany
    exact List.mem_map.mpr ⟨f, hf, eq_of_beq heq⟩
  · cases h

theorem Sys.of_real {files : List (String × UInt32 × List Token)} (h : (Sys.of files).Real path) :
    path ∈ files.map (·.1) := by
  obtain ⟨fn, h | ⟨st, h⟩⟩ := h
  · exact FileView.of_realpath h
  · exact FileView.of_realpath h

/-- Two files that include each other and themselves. -/
def cyclicFiles : List (String × UInt32 × List Token) :=
  [("/a", 0, Token.includes "/b" ++ Token.includes "/a"), ("/b", 0, Token.includes "/a" ++ Token.includes "/b")]

theorem exists_done {x : Option Parsed} (h : x ≠ none ∧ x ≠ some .fail ∧ x ≠ some .crash) :
    ∃ s, x = some (.done s) := by
  cases x with
  | none => exact absurd rfl h.1
  | some r =>
    cases r with
    | done s => exact ⟨s, rfl⟩
    | fail => exact absurd rfl h.2.1
    | crash => exact absurd rfl h.2.2

/-- The pools and lists that a load begins with on a host like `Sys.of`. -/
def startShared : Shared :=
  { mpools := { cap := some defaultCap, pools := [{ used := 144, lastUsed := 0, errorNumber := .none }] }, pctxt := .empty }

theorem includes_visited_once_cycle : ∃ s, initShared (.of cyclicFiles) = some startShared ∧
    parseFiles (.of cyclicFiles) [] 1 3 0 (pushFile (Sys.of cyclicFiles).files "/a" startShared).2 = some (.done s) ∧
    ∃ n, FileTurns (.of cyclicFiles) [] (0, (pushFile (Sys.of cyclicFiles).files "/a" startShared).2) s.pctxt.cffiles (n, s) := by
  obtain ⟨s, hs⟩ := exists_done (x := parseFiles (.of cyclicFiles) [] 1 3 0
    (pushFile (Sys.of cyclicFiles).files "/a" startShared).2) (by decide +kernel)
  exact ⟨s, by decide +kernel, hs, (includes_visited_once (.of cyclicFiles) [] _ (fun _ => Sys.of_real) "/a" startShared
    rfl).2.2 1 3 s hs⟩

/-! ## The main file -/

/-- The main file can be resolved and opened, and is a regular file. -/
def MainReadable (sys : Sys) (fn : String) : Prop :=
  ∃ path st tokens, sys.files.realpath fn = some path ∧ sys.files.stat path = some st ∧ st.regular = true ∧
    (sys.filesAs st).fopen path = some tokens

/-- The main file was resolved, opened and parsed to its end without error. -/
def MainParsed (sys : Sys) (gv : Vartree) (fn : String) : Prop :=
  ∃ path st tokens s c, sys.files.realpath fn = some path ∧ sys.files.stat path = some st ∧ st.regular = true ∧
    (sys.filesAs st).fopen path = some tokens ∧
    yyparse { view := sys.filesAs st, filename := path } tokens { shared := s, globals := gv, nerrs := 0 } = (.ok (), c) ∧
    c.nerrs = 0

/-- What a process should find out about its main file: a call returns 0 only if the file was parsed, and -1 if it
    cannot be read, whatever the purpose of the call is. -/
def MainReported (sys : Sys) (p : Process) (fn : String) : Prop :=
  (∀ fuel list update p' r, loadConfig sys fuel list update p = some (.ok p' r) → MainParsed sys p.globalVars fn) ∧
  (¬MainReadable sys fn → ∃ n, ∀ fuel list update, n ≤ fuel → loadConfig sys fuel list update p = some .fail)

/-- `push_file` refuses the main file, or the process for it cannot be forked. -/
def MainRefused (sys : Sys) (fn : String) (s₀ : Shared) : Prop :=
  (pushFile sys.files fn s₀).1 < 0 ∨
    ∃ path, sys.files.realpath fn = some path ∧
      sys.fork path (snapshot (pushFile sys.files fn s₀).2).mpools.pools.length = false

/-- The queue that the loop begins with. -/
theorem pushFile_first {v : FileView} {fn : String} (hpath : v.realpath fn = some path)
    (hs : s.pctxt = .empty) (h : ¬(pushFile v fn s).1 < 0) :
    (pushFile v fn s).2.pctxt = { Pctxt.empty with cffiles := [path] } := by
  simp only [pushFile, hpath] at h ⊢
  split at h
  · exact absurd (show (-1 : Int) < 0 by decide) h
  · next hallowed =>
    rw [if_neg hallowed]
    split at h
    · exact absurd (show (-1 : Int) < 0 by decide) h
    · next hnew =>
      rw [if_neg hnew]
      split at h
      · next halloc =>
        rw [if_pos halloc]
        show { s.pctxt with cffiles := s.pctxt.cffiles ++ [path] } = _
        rw [hs]
        rfl
      · exact absurd (show (-1 : Int) < 0 by decide) h

/-- A child that ends with status 0 has parsed its file, or there was none to parse. -/
theorem parseChild_zero {sys : Sys} {c : Shared}
    (h : parseChild sys file gv s = (.status 0, c)) {st : Stat} {tokens : List Token} (hst : sys.files.stat file = some st)
    (hreg : st.regular = true) (hopen : (sys.filesAs st).fopen file = some tokens) :
    ∃ c', yyparse { view := sys.filesAs st, filename := file } tokens { shared := s, globals := gv, nerrs := 0 } =
      (.ok (), c') ∧ c'.nerrs = 0 := by
  unfold parseChild at h
  simp only [hst, hreg, hopen, Bool.not_true, Bool.false_eq_true, if_false] at h
  unfold parseTokens at h
  split at h
  · next c' hrun =>
    refine ⟨c', hrun, ?_⟩
    by_contra hne
    rw [if_neg hne] at h
    cases h
  · cases h
  · cases h

/-- A child for a file that cannot be read ends with status 0. -/
theorem parseChild_unreadable {sys : Sys} {fn : String} (hfn : sys.files.realpath fn = some file)
    (h : ¬MainReadable sys fn) (gv : Vartree) (s : Shared) : parseChild sys file gv s = (.status 0, s) := by
  unfold parseChild
  split
  · rfl
  · next st hst =>
    split
    · rfl
    · next hreg =>
      split
      · rfl
      · next tokens hopen =>
        refine absurd ⟨file, st, tokens, hfn, hst, ?_, hopen⟩ h
        simpa using hreg

/-- Without sections there is nothing that could fail. -/
theorem finishLoadConfig_empty (sys : Sys) (p : Process) (list update : Bool) (files : List String) :
    ∃ p' r, finishLoadConfig sys p list update { Pctxt.empty with cffiles := files } = .ok p' r := by
  cases list with
  | false | true => exact ⟨_, _, rfl⟩

section Main

variable {sys : Sys} {p : Process} {fn : String} {s₀ : Shared} (hfn : p.glConf.configFile = some fn)
  (h₀ : initShared sys = some s₀) {fuel : Nat}

include h₀

theorem initShared_pctxt : s₀.pctxt = .empty := by
  unfold initShared at h₀
  simp only at h₀
  split at h₀
  · obtain rfl := Option.some.inj h₀
    rfl
  · cases h₀

include hfn

theorem loadConfig_eq (fuel : Nat) (list update : Bool) : loadConfig sys fuel list update p =
    match if (pushFile sys.files fn s₀).1 < 0 then some .fail
      else parseFiles sys p.globalVars fuel fuel 0 (pushFile sys.files fn s₀).2 with
    | none => none
    | some .crash => some .crash
    | some .fail => some .fail
    | some (.done s) => some (finishLoadConfig sys p list update s.pctxt) := by
  have hread : readFiles sys p.globalVars fuel p.glConf.configFile = if (pushFile sys.files fn s₀).1 < 0 then some .fail
      else parseFiles sys p.globalVars fuel fuel 0 (pushFile sys.files fn s₀).2 := by
    simp only [readFiles, h₀, hfn]
  exact congrArg (fun r : Option Parsed => match r with
    | none => none
    | some .crash => some Outcome.crash
    | some .fail => some .fail
    | some (.done s) => some (finishLoadConfig sys p list update s.pctxt)) hread

omit hfn in
/-- The first turn of the loop. -/
theorem parseFiles_main {path : String} (hpath : sys.files.realpath fn = some path)
    (hpush : ¬(pushFile sys.files fn s₀).1 < 0) (gv : Vartree) (retries fuel : Nat) :
    parseFiles sys gv retries (fuel + 1) 0 (pushFile sys.files fn s₀).2 =
      match parse sys gv path retries (pushFile sys.files fn s₀).2 with
      | some (.done s) => parseFiles sys gv retries fuel 1 s
      | r => r := by
  have hfiles : (pushFile sys.files fn s₀).2.pctxt.cffiles.drop 0 = [path] := by
    rw [pushFile_first hpath (initShared_pctxt h₀) hpush]
    rfl
  exact parseFiles_cons sys gv retries fuel hfiles

/-- A main file that is refused is reported. -/
theorem mainRefused_fail (h : MainRefused sys fn s₀) (hfuel : 1 ≤ fuel) (list update : Bool) :
    loadConfig sys fuel list update p = some .fail := by
  rw [loadConfig_eq hfn h₀]
  by_cases hpush : (pushFile sys.files fn s₀).1 < 0
  · rw [if_pos hpush]
  · obtain ⟨path, hpath, hfork⟩ := h.resolve_left hpush
    obtain ⟨k, rfl⟩ := Nat.exists_eq_add_of_le' hfuel
    rw [if_neg hpush, parseFiles_main h₀ hpath hpush]
    have hparse : parse sys p.globalVars path (k + 1) (pushFile sys.files fn s₀).2 = some .fail := by
      unfold parse attempt
      have hfork' : sys.fork path (pushFile sys.files fn s₀).2.mpools.mpoolSnapshot.pools.length = false := hfork
      simp only [hfork', Bool.not_false, if_true]
    rw [hparse]

/-- A main file that cannot be read and is not refused is taken for an empty one. -/
theorem mainUnreadable_ok (hread : ¬MainReadable sys fn) (href : ¬MainRefused sys fn s₀) (hfuel : 2 ≤ fuel)
    (list update : Bool) : ∃ p' r, loadConfig sys fuel list update p = some (.ok p' r) := by
  have hpush : ¬(pushFile sys.files fn s₀).1 < 0 := fun h => href (.inl h)
  obtain ⟨k, rfl⟩ := Nat.exists_eq_add_of_le' hfuel
  obtain ⟨s, hdone, hctx⟩ : ∃ s, parseFiles sys p.globalVars (k + 2) (k + 2) 0 (pushFile sys.files fn s₀).2 =
      some (.done s) ∧ ∃ files, s.pctxt = { Pctxt.empty with cffiles := files } := by
    cases hpath : sys.files.realpath fn with
    | none =>
      have hsame : (pushFile sys.files fn s₀).2 = s₀ := by
        unfold pushFile
        rw [hpath]
      refine ⟨s₀, ?_, [], initShared_pctxt h₀⟩
      rw [hsame]
      refine parseFiles_nil _ _ _ _ ?_
      rw [initShared_pctxt h₀]
      rfl
    | some path =>
      have hqueue := pushFile_first hpath (initShared_pctxt h₀) hpush
      have hparse : parse sys p.globalVars path (k + 2) (pushFile sys.files fn s₀).2 =
          some (.done (snapshot (pushFile sys.files fn s₀).2)) := by
        have hfork : sys.fork path (snapshot (pushFile sys.files fn s₀).2).mpools.pools.length = true := by
          by_contra hne
          exact href (.inr ⟨path, hpath, Bool.eq_false_iff.mpr hne⟩)
        have hattempt : attempt sys p.globalVars path (pushFile sys.files fn s₀).2 =
            .inl (.done (snapshot (pushFile sys.files fn s₀).2)) := by
          have hrun := parseChild_unreadable hpath hread p.globalVars (snapshot (pushFile sys.files fn s₀).2)
          unfold attempt
          unfold snapshot at hfork hrun ⊢
          simp only [hfork, hrun, Bool.not_true, Bool.false_eq_true, if_false, if_true]
        unfold parse
        rw [hattempt]
      refine ⟨snapshot (pushFile sys.files fn s₀).2, ?_, [path], hqueue⟩
      rw [parseFiles_main h₀ hpath hpush, hparse]
      refine parseFiles_nil _ _ _ _ ?_
      show (pushFile sys.files fn s₀).2.pctxt.cffiles.drop 1 = []
      rw [hqueue]
      rfl
  obtain ⟨files, hfiles⟩ := hctx
  rw [loadConfig_eq hfn h₀, if_neg hpush, hdone]
  obtain ⟨p', r, hok⟩ := finishLoadConfig_empty sys p list update files
  refine ⟨p', r, ?_⟩
  rw [← hok, ← hfiles]

theorem mainParsed_of_ok (hread : MainReadable sys fn) {list update : Bool} {p' : Process} {r : Loaded}
    (h : loadConfig sys fuel list update p = some (.ok p' r)) : MainParsed sys p.globalVars fn := by
  obtain ⟨path, st, tokens, hpath, hst, hreg, hopen⟩ := hread
  rw [loadConfig_eq hfn h₀] at h
  by_cases hpush : (pushFile sys.files fn s₀).1 < 0
  · rw [if_pos hpush] at h
    cases h
  · rw [if_neg hpush] at h
    cases fuel with
    | zero => cases h
    | succ k =>
      rw [parseFiles_main h₀ hpath hpush] at h
      cases hparse : parse sys p.globalVars path (k + 1) (pushFile sys.files fn s₀).2 with
      | none =>
        rw [hparse] at h
        cases h
      | some res =>
        rw [hparse] at h
        cases res with
        | fail => cases h
        | crash => cases h
        | done s =>
          obtain ⟨s', hchild, -⟩ := parse_done hparse
          obtain ⟨c, hrun, hnerrs⟩ := parseChild_zero hchild hst hreg hopen
          exact ⟨path, st, tokens, s', c, hpath, hst, hreg, hopen, hrun, hnerrs⟩

/-- **When an unreadable main file is reported**: exactly when the main file can be read, or is refused by `push_file` or
    `fork`. A reload that is told of the failure leaves everything as it is. -/
theorem unreadable_reported_iff :
    (MainReported sys p fn ∧ ∀ env d, reloadVirtualMachines env none d = .ok (-1, d)) ↔
      MainReadable sys fn ∨ MainRefused sys fn s₀ := by
  constructor
  · rintro ⟨⟨-, hfail⟩, -⟩
    by_contra hnot
    obtain ⟨hread, href⟩ := not_or.mp hnot
    obtain ⟨n, hn⟩ := hfail hread
    obtain ⟨p', r, hok⟩ := mainUnreadable_ok hfn h₀ hread href (Nat.le_max_right n 2) true true
    rw [hn _ true true (Nat.le_max_left n 2)] at hok
    cases hok
  · intro h
    refine ⟨⟨fun fuel list update p' r hok => ?_, fun hread => ?_⟩, fun env d => rfl⟩
    · obtain hread | href := h
      · exact mainParsed_of_ok hfn h₀ hread hok
      · cases fuel with
        | zero =>
          rw [loadConfig_eq hfn h₀] at hok
          by_cases hpush : (pushFile sys.files fn s₀).1 < 0
          · rw [if_pos hpush] at hok
            cases hok
          · rw [if_neg hpush] at hok
            cases hok
        | succ k =>
          rw [mainRefused_fail hfn h₀ href (Nat.le_add_left 1 k)] at hok
          cases hok
    · exact ⟨1, fun fuel list update hfuel => mainRefused_fail hfn h₀ (h.resolve_left hread) hfuel list update⟩

end Main

/-- A host with an empty main file. -/
theorem unreadable_reported_iff_empty :
    initShared (.of [("/m", 0, [])]) = some startShared ∧ MainReadable (.of [("/m", 0, [])]) "/m" ∧
      MainReported (.of [("/m", 0, [])]) (.init "/m") "/m" := by
  have hread : MainReadable (.of [("/m", 0, [])]) "/m" :=
    ⟨"/m", { regular := true, uid := 0, gid := 0 }, [], by decide +kernel, by decide +kernel, rfl, by decide +kernel⟩
  have hstart : initShared (.of [("/m", 0, [])]) = some startShared := by decide +kernel
  exact ⟨hstart, hread, ((unreadable_reported_iff (p := .init "/m") rfl hstart).mpr (.inl hread)).1⟩

/-- A main file that does not exist: the load succeeds, with no VM. -/
theorem unreadable_taken_for_empty : (Sys.of []).files.realpath "/m" = none ∧
    (∃ p r, loadConfig (.of []) 1 true true (.init "/m") = some (.ok p r) ∧ r.list = [] ∧ r.files = []) ∧
    ¬MainReported (.of []) (.init "/m") "/m" := by
  obtain ⟨p, r, hload, hlist⟩ : ∃ p r, loadConfig (.of []) 1 true true (.init "/m") = some (.ok p r) ∧
      r.list = [] ∧ r.files = [] := ⟨_, _, rfl, rfl, rfl⟩
  refine ⟨rfl, ⟨p, r, hload, hlist⟩, fun h => ?_⟩
  obtain ⟨path, _, _, _, _, hpath, -⟩ := h.1 _ _ _ _ _ hload
  cases hpath

end Bmd
