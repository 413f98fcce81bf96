import Bmd.Correctness.Load
import Mathlib.Data.List.Nodup

/-!
# `Correctness.Ints` — integer parameters

An integer is read with `strtol`, and the `long` is stored in an `int`. `denotedInt` is the integer that a whole text
denotes if it is an `int`; what is stored differs from it for the empty text, which is read as zero, and for integers
outside of the range. For `nmdm_offset` the merge besides takes a zero for an absent value.

`Tracks` carries the argument for the parameters of a VM section: the numbers in the configuration are those of the
last value that their key was given, or the ones it had before if that value was rejected.
-/

namespace Bmd

open Lib

variable {text : String} {env : ParseEnv} {r : Option Draft} {e : ParserEntry} {l : List Given} {d : Draft}
  {val : String} {v : Int} {base : Nat}

/-! ## Texts of integers -/

/-- The values of an `int`. -/
def inInt (v : Int) : Prop := -2147483648 ≤ v ∧ v ≤ 2147483647

instance : DecidablePred inInt := fun v => inferInstanceAs (Decidable (-2147483648 ≤ v ∧ v ≤ 2147483647))

/-- The integer that the whole text denotes, if it is an `int`. -/
def denotedInt (base : Nat) (text : String) : Option Int := (denoted base text).filter fun v => decide (inInt v)

theorem denotedInt_eq_some : denotedInt base text = some v ↔ denoted base text = some v ∧ inInt v := by
  unfold denotedInt
  rw [Option.filter_eq_some_iff, decide_eq_true_iff]

theorem denotedInt_eq_none : denotedInt base text = none ↔ ∀ v, denoted base text = some v → ¬inInt v := by
  constructor
  · intro hnone v hv hint
    have hsome := denotedInt_eq_some.mpr ⟨hv, hint⟩
    rw [hnone] at hsome
    cases hsome
  · intro h
    cases hsome : denotedInt base text with
    | none => rfl
    | some v =>
      obtain ⟨hv, hint⟩ := denotedInt_eq_some.mp hsome
      exact absurd hint (h v hv)

/-- An `int` survives the conversions. -/
theorem wrap32_clamp (h : inInt v) : wrap32 (clamp v) = v := by
  have hlong : inLong v := by
    unfold inInt at h
    unfold inLong longMin longMax
    omega
  rw [clamp_of_inLong hlong]
  exact wrap32_of_range h

theorem ne_empty_of_denoted (h : denoted base text = some v) : text ≠ "" := by
  rintro rfl
  rw [denoted_empty] at h
  cases h

/-- The numbers that `parse_int` accepts. -/
theorem parseInt_isSome : (parseInt text).isSome ↔ text = "" ∨ (denoted 10 text).isSome := by
  unfold parseInt
  rw [strtolAll_eq]
  by_cases hempty : text = ""
  · simp [hempty]
  · simp [hempty]

theorem parseInt_of_denotedInt (h : denotedInt 10 text = some v) : parseInt text = some v := by
  obtain ⟨hden, hint⟩ := denotedInt_eq_some.mp h
  unfold parseInt
  rw [strtolAll_eq, if_neg (ne_empty_of_denoted hden), hden]
  exact congrArg some (wrap32_clamp hint)

/-! ## Lists of texts -/

section MapM

variable {α β : Type} {f g : α → Option β}

theorem mapM_isSome : ∀ {l : List α}, (l.mapM f).isSome ↔ ∀ x ∈ l, (f x).isSome
  | [] => by simp
  | x :: l => by
    rw [List.mapM_cons, List.forall_mem_cons, ← mapM_isSome]
    cases f x with
    | none => simp
    | some y =>
      cases l.mapM f with
      | none => simp
      | some ys => simp

theorem mapM_mono (h : ∀ x y, f x = some y → g x = some y) :
    ∀ {l : List α} {ys : List β}, l.mapM f = some ys → l.mapM g = some ys
  | [], ys, hf => hf
  | x :: l, ys, hf => by
    rw [List.mapM_cons] at hf ⊢
    obtain ⟨y, hy, hf⟩ := Option.bind_eq_some_iff.mp hf
    obtain ⟨zs, hzs, hf⟩ := Option.bind_eq_some_iff.mp hf
    refine Option.bind_eq_some_iff.mpr ⟨y, h x y hy, ?_⟩
    exact Option.bind_eq_some_iff.mpr ⟨zs, mapM_mono h hzs, hf⟩

end MapM

/-! ## The keys -/

/-- The integer parameters of a VM section. -/
inductive IntKey where
  | ncpu | bootDelay | loaderTimeout | stopTimeout | graphicsPort | graphicsRes
  deriving DecidableEq, Repr

variable {k : IntKey} {d' : Draft} {g : Given} {ncpu : String}

namespace IntKey

/-- The entry of the key in `parser_list`. -/
def entry : IntKey → ParserEntry
  | .ncpu => ⟨"ncpu", parseNcpu, none⟩
  | .bootDelay => ⟨"boot_delay", parseBootDelay, none⟩
  | .loaderTimeout => ⟨"loader_timeout", parseLoaderTimeout, none⟩
  | .stopTimeout => ⟨"stop_timeout", parseStopTimeout, none⟩
  | .graphicsPort => ⟨"graphics_port", parseGraphicsPort, none⟩
  | .graphicsRes => ⟨"graphics_res", parseGraphicsRes, none⟩

/-- The texts of the integers in a value: a resolution has two, around an `x`. -/
def parts : IntKey → String → Option (List String)
  | .graphicsRes, text => (cutAt 'x' text).map fun p => [p.1, p.2]
  | _, text => some [text]

/-- The integers that a value denotes, if they are values of an `int`. -/
def denotes (k : IntKey) (text : String) : Option (List Int) := (k.parts text).bind fun l => l.mapM (denotedInt 10)

/-- The integers that are read. -/
def reads (k : IntKey) (text : String) : Option (List Int) := (k.parts text).bind fun l => l.mapM parseInt

/-- The numbers in effect, in decimal; `ncpu` is kept as a text. -/
def shown : IntKey → VmConf → List String
  | .ncpu, conf => conf.ncpu.toList
  | .bootDelay, conf => [toString conf.bootDelay]
  | .loaderTimeout, conf => [toString conf.loaderTimeout]
  | .stopTimeout, conf => [toString conf.stopTimeout]
  | .graphicsPort, conf => [toString conf.fbuf.port]
  | .graphicsRes, conf => [toString conf.fbuf.width, toString conf.fbuf.height]

/-- **The parameter means what is written**: the numbers in effect are those that the value denotes; or it denotes none,
    it was rejected, and the numbers are those from before. -/
def Means (k : IntKey) (g : Given) (conf : VmConf) : Prop :=
  (∃ ns, k.denotes g.text = some ns ∧ k.shown conf = ns.map toString) ∨
    (k.denotes g.text = none ∧ g.accepted = false ∧ k.shown conf = k.shown g.before)

/-- If nothing but integers and empty texts is written, then all of them are values of an `int`. -/
def Plain (k : IntKey) (text : String) : Prop :=
  ∀ l, k.parts text = some l → (∀ t ∈ l, t = "" ∨ (denoted 10 t).isSome) → ∀ t ∈ l, (denotedInt 10 t).isSome

theorem reads_of_denotes {ns : List Int} (h : k.denotes text = some ns) : k.reads text = some ns := by
  obtain ⟨l, hl, hns⟩ := Option.bind_eq_some_iff.mp h
  exact Option.bind_eq_some_iff.mpr ⟨l, hl, mapM_mono (fun _ _ => parseInt_of_denotedInt) hns⟩

theorem denotes_of_reads_none (h : k.reads text = none) : k.denotes text = none := by
  cases hden : k.denotes text with
  | none => rfl
  | some ns =>
    rw [reads_of_denotes hden] at h
    cases h

/-- What is accepted denotes something. -/
theorem plain_iff : k.Plain text ↔ ((k.reads text).isSome → (k.denotes text).isSome) := by
  unfold Plain reads denotes
  cases k.parts text with
  | none => simp
  | some l => simp [mapM_isSome, parseInt_isSome]

/-! ### Reading a value -/

theorem entry_mem (k : IntKey) : k.entry ∈ parserList := by
  cases k <;> simp [entry, parserList]

theorem eq_entry (k : IntKey) (he : e ∈ parserList) (hname : e.name = k.entry.name) : e = k.entry :=
  List.inj_on_of_nodup_map parserList_names_nodup he k.entry_mem hname

end IntKey

@[simp] theorem Fbuf.enabled_port (fb : Fbuf) : fb.enabled.port = fb.port := by
  unfold enabled
  split <;> rfl

@[simp] theorem Fbuf.enabled_width (fb : Fbuf) : fb.enabled.width = fb.width := by
  unfold enabled
  split <;> rfl

@[simp] theorem Fbuf.enabled_height (fb : Fbuf) : fb.enabled.height = fb.height := by
  unfold enabled
  split <;> rfl

/-- A parse function for one integer. -/
theorem storeInt_cases {f : Int → VmConf → VmConf}
    (h : storeInt f env d val = .ok r) :
    (r = none ∧ [val].mapM parseInt = none) ∨
      ∃ n, r = some { d with conf := f n d.conf } ∧ [val].mapM parseInt = some [n] := by
  obtain rfl := Except.ok.inj h
  rw [List.mapM_cons, List.mapM_nil]
  cases parseInt val with
  | none => exact .inl ⟨rfl, rfl⟩
  | some n => exact .inr ⟨n, rfl, rfl⟩

theorem resolutionOf_cases (val : String) :
    (resolutionOf val = none ∧ IntKey.graphicsRes.reads val = none) ∨
      ∃ w h, resolutionOf val = some (w, h) ∧ IntKey.graphicsRes.reads val = some [w, h] := by
  have hparts : IntKey.graphicsRes.parts val = (cutAt 'x' val).map fun p => [p.1, p.2] := rfl
  unfold resolutionOf IntKey.reads
  rw [hparts]
  cases cutAt 'x' val with
  | none => exact .inl ⟨rfl, rfl⟩
  | some p =>
    simp only [Option.map_some, Option.bind_some, List.mapM_cons, List.mapM_nil, Option.bind_eq_bind]
    cases parseInt p.1 with
    | none => exact .inl ⟨rfl, rfl⟩
    | some w =>
      cases parseInt p.2 with
      | none => exact .inl ⟨rfl, rfl⟩
      | some h => exact .inr ⟨w, h, rfl, rfl⟩

/-- All keys but one take a single integer, and store it where no other key does. -/
theorem IntKey.single (k : IntKey) (hne : k ≠ .graphicsRes) : (k.parts = fun text => some [text]) ∧
    ∃ f, k.entry.parse = storeInt f ∧ ∀ n conf, k.shown (f n conf) = [toString n] ∧
      ∀ j, k ≠ j → j.shown (f n conf) = j.shown conf := by
  cases k with
  | ncpu =>
    refine ⟨rfl, fun n conf => { conf with ncpu := some (toString n) }, rfl, fun n conf => ⟨rfl, fun j hj => ?_⟩⟩
    cases j <;> first | exact absurd rfl hj | rfl
  | bootDelay =>
    refine ⟨rfl, fun n conf => { conf with bootDelay := n }, rfl, fun n conf => ⟨rfl, fun j hj => ?_⟩⟩
    cases j <;> first | exact absurd rfl hj | rfl
  | loaderTimeout =>
    refine ⟨rfl, fun n conf => { conf with loaderTimeout := n }, rfl, fun n conf => ⟨rfl, fun j hj => ?_⟩⟩
    cases j <;> first | exact absurd rfl hj | rfl
  | stopTimeout =>
    refine ⟨rfl, fun n conf => { conf with stopTimeout := n }, rfl, fun n conf => ⟨rfl, fun j hj => ?_⟩⟩
    cases j <;> first | exact absurd rfl hj | rfl
  | graphicsPort =>
    refine ⟨rfl, fun n => setFbuf ({ · with port := n }), rfl, fun n conf => ⟨by simp [shown, setFbuf], fun j hj => ?_⟩⟩
    cases j <;> first | exact absurd rfl hj | simp [shown, setFbuf]
  | graphicsRes => exact absurd rfl hne

/-- A value is rejected if it cannot be read; otherwise the numbers that are read come into effect. -/
theorem IntKey.parse_cases (k : IntKey)
    (h : k.entry.parse env d val = .ok r) :
    (r = none ∧ k.reads val = none) ∨
      ∃ d' ns, r = some d' ∧ k.reads val = some ns ∧ k.shown d'.conf = ns.map toString := by
  by_cases hres : k = .graphicsRes
  · subst hres
    obtain rfl := Except.ok.inj h
    obtain ⟨hres, hnone⟩ | ⟨width, height, hres, hsome⟩ := resolutionOf_cases val
    · refine .inl ⟨?_, hnone⟩
      rw [hres]
      rfl
    · rw [hres]
      refine .inr ⟨_, [width, height], rfl, hsome, ?_⟩
      simp [shown, setFbuf]
  · obtain ⟨hparts, f, hparse, hshown⟩ := k.single hres
    rw [hparse] at h
    unfold reads
    rw [hparts]
    obtain ⟨rfl, hnone⟩ | ⟨n, rfl, hsome⟩ := storeInt_cases h
    · exact .inl ⟨rfl, hnone⟩
    · exact .inr ⟨_, [n], rfl, hsome, (hshown n d.conf).1⟩

/-! ### Other keys -/

/-- The fields that hold integers of a configuration file. -/
def Draft.numbers (d : Draft) : Option String × Int × Int × Int × Int × Int × Int :=
  (d.conf.ncpu, d.conf.bootDelay, d.conf.loaderTimeout, d.conf.stopTimeout, d.conf.fbuf.port, d.conf.fbuf.width,
    d.conf.fbuf.height)

theorem IntKey.shown_of_numbers (k : IntKey) (h : d'.numbers = d.numbers) : k.shown d'.conf = k.shown d.conf := by
  simp only [Draft.numbers, Prod.mk.injEq] at h
  cases k <;> simp [shown, h]

/-- An entry of `parser_list` belongs to an integer, or it has nothing to do with integers. -/
theorem parserList_numbers : ∀ e ∈ parserList, (∃ j : IntKey, e = j.entry) ∨ Frame Draft.numbers e.parse := by
  simp only [parserList, List.forall_mem_cons]
  refine ⟨?_, ?_, ?_, ?_, ?_, .inl ⟨.bootDelay, rfl⟩, ?_, ?_, ?_, ?_, ?_, ?_, ?_, .inl ⟨.graphicsPort, rfl⟩,
    .inl ⟨.graphicsRes, rfl⟩, ?_, ?_, ?_, ?_, ?_, ?_, ?_, ?_, ?_, ?_, .inl ⟨.loaderTimeout, rfl⟩, ?_, ?_, .inl ⟨.ncpu, rfl⟩,
    ?_, ?_, ?_, ?_, .inl ⟨.stopTimeout, rfl⟩, ?_, ?_, ?_, List.forall_mem_nil _⟩
  all_goals
    refine .inr ?_
    -- Most functions store a text in another field, some of them in the frame buffer.
    first
    | exact frame_store fun _ _ => rfl
    | exact frame_store fun _ _ => by simp [Draft.numbers, setFbuf]
    | exact frame_parseOwner fun _ _ _ _ => rfl
    | intro env d val d' h
  -- The others append to a list, or set a field on a condition, `parse_name` without one.
  all_goals
    first
    | exact frame_addConf h fun _ => rfl
    | exact frame_addConf (accepted_then h).2 fun _ => rfl
    | obtain ⟨-, rfl⟩ := accepted_if h; rfl
    | obtain ⟨_, -, rfl⟩ := Option.map_eq_some_iff.mp (Except.ok.inj h); rfl
    | obtain rfl := Option.some.inj (Except.ok.inj h); rfl

/-- The function of another integer. -/
theorem IntKey.frame_entry (k j : IntKey) (hne : j ≠ k) : Frame (fun d => k.shown d.conf) j.entry.parse := by
  by_cases hres : j = .graphicsRes
  · subst hres
    intro env d val d' h
    obtain ⟨_, -, rfl⟩ := Option.map_eq_some_iff.mp (Except.ok.inj h)
    cases k <;> first | exact absurd rfl hne | simp [shown, setFbuf]
  · obtain ⟨-, f, hparse, hshown⟩ := j.single hres
    rw [hparse]
    exact frame_storeInt fun n d => (hshown n d.conf).2 k hne

/-- The numbers of a key are not touched through another key. -/
theorem IntKey.frame (k : IntKey) (he : e ∈ parserList) (hne : e.name ≠ k.entry.name) :
    Frame (fun d => k.shown d.conf) e.parse := by
  obtain ⟨j, rfl⟩ | hframe := parserList_numbers e he
  · refine k.frame_entry j ?_
    rintro rfl
    exact hne rfl
  · intro env d val d' h
    exact k.shown_of_numbers (hframe env d val d' h)

theorem IntKey.frame_clear (k : IntKey) (he : e ∈ parserList) {c : Draft → Draft}
    (hc : e.clear = some c) (d : Draft) : k.shown (c d).conf = k.shown d.conf := by
  refine k.shown_of_numbers ?_
  exact forall_clear (P := fun c => ∀ d : Draft, (c d).numbers = d.numbers) (fun _ => rfl) (fun _ => rfl) (fun _ => rfl)
    (fun _ => rfl) (fun _ => rfl) (fun _ => rfl) e he c hc d

/-! ## Sections -/

/-- **What the last value of a key has left in the configuration.** -/
def IntKey.Tracks (k : IntKey) (d : Draft) (l : List Given) : Prop :=
  ∀ g, l.find? (·.key == k.entry.name) = some g →
    (g.accepted = false ∧ k.reads g.text = none ∧ k.shown d.conf = k.shown g.before) ∨
      (g.accepted = true ∧ ∃ ns, k.reads g.text = some ns ∧ k.shown d.conf = ns.map toString)

theorem IntKey.Tracks.of_shown (h : k.Tracks d l) (hsame : k.shown d'.conf = k.shown d.conf) : k.Tracks d' l := by
  intro g hg
  rw [hsame]
  exact h g hg

/-- A value of another key is not the last one of this key. -/
theorem IntKey.Tracks.other (h : k.Tracks d l) (hne : g.key ≠ k.entry.name) : k.Tracks d (g :: l) := by
  intro g' hg'
  rw [List.find?_cons_of_neg (by simpa using hne)] at hg'
  exact h g' hg'

/-- A value of the key is the last one from then on. -/
theorem IntKey.Tracks.value
    (h : k.entry.parse env d val = .ok r) :
    k.Tracks (r.getD d) (d.given k.entry val r.isSome :: l) := by
  intro g hg
  rw [List.find?_cons_of_pos (by exact beq_self_eq_true _)] at hg
  obtain rfl := Option.some.inj hg
  obtain ⟨rfl, hnone⟩ | ⟨d', ns, rfl, hsome, hshown⟩ := k.parse_cases h
  · exact .inl ⟨rfl, hnone, rfl⟩
  · exact .inr ⟨rfl, ns, hsome, hshown⟩

theorem IntKey.tracks_workInvariant (k : IntKey) (env : ParseEnv) : WorkInvariant env k.Tracks where
  parse e he d d' l ts val hd _ h := by
    by_cases hname : e.name = k.entry.name
    · obtain rfl := k.eq_entry he hname
      exact .value h
    · exact (hd.of_shown (k.frame he hname env d val d' h)).other hname
  reject e he d l ts val hd _ h := by
    by_cases hname : e.name = k.entry.name
    · obtain rfl := k.eq_entry he hname
      exact .value h
    · exact hd.other hname
  clear e he c hc d l hd := hd.of_shown (k.frame_clear he hc d)
  assign _ _ _ _ _ hd _ := hd
  plugin _ _ _ _ hd := hd
  bind _ _ _ hd _ := hd
  restore _ _ _ _ _ hd := hd

theorem finalizeVmConf_shown (k : IntKey) (conf : VmConf) : k.shown (finalizeVmConf conf) = k.shown conf := by
  unfold finalizeVmConf
  split
  · cases k <;> rfl
  · rfl

/-- **The last value of a key**, at the end of its section. -/
theorem IntKey.means_iff (k : IntKey) {gv : Vartree} {templates : List Cfsection} {id : Nat}
    {name : String} {sc : Cfsection} {w : Work} {ent : ConfEnt} (hrun : Executes env gv templates id name sc w)
    (hent : confEntOf name id w.draft = some ent) (hg : w.values.find? (·.key == k.entry.name) = some g) :
    k.Means g ent.conf ↔ k.Plain g.text := by
  have htracks : k.Tracks w.draft w.values := by
    refine vmConfSetParams_keeps (k.tracks_workInvariant env) _ _ _ _ _ hrun ?_
    intro g hg
    cases hg
  obtain ⟨-, rfl⟩ := confEntOf_ok hent
  rw [plain_iff]
  unfold Means
  rw [finalizeVmConf_shown]
  obtain ⟨hrej, hreads, hshown⟩ | ⟨hacc, ns, hreads, hshown⟩ := htracks g hg
  · refine iff_of_true (.inr ⟨denotes_of_reads_none hreads, hrej, hshown⟩) fun h => ?_
    rw [hreads] at h
    cases h
  · constructor
    · rintro (⟨ns', hden, -⟩ | ⟨-, hrej, -⟩) -
      · rw [hden]
        rfl
      · rw [hacc] at hrej
        cases hrej
    · intro h
      obtain ⟨ns', hden⟩ := Option.isSome_iff_exists.mp (h (by rw [hreads]; rfl))
      obtain rfl : ns = ns' := Option.some.inj (hreads.symm.trans (reads_of_denotes hden))
      exact .inl ⟨ns, hden, hshown⟩

/-! ## `nmdm_offset` -/

/-- The offset is the one that was read from its text. -/
def GlobalConf.OffsetRead (gc : GlobalConf) : Prop :=
  ∀ text, gc.nmdmOffsetText = some text → gc.nmdmOffset = ((strtolAll 0 text).map wrap32).getD defaultNmdmOffset

theorem setGlobals_offsetRead {scs : List Cfsection} {gc : GlobalConf} {vars vars' : Variables}
    (h : setGlobals scs .zero vars = .ok (gc, vars')) : gc.OffsetRead := by
  refine setGlobals_keeps (P := GlobalConf.OffsetRead) ?_ ?_ h ?_
  · intro w val k hw
    cases k <;> exact hw
  · intro gc text hgc
    cases text with
    | none => exact hgc
    | some text =>
      intro text' htext
      obtain rfl := Option.some.inj htext
      rfl
  · intro text htext
    cases htext

/-- **The offset means what is written**: it is the integer that the text denotes; or there is none, and the offset is
    the one from before or the default. -/
def OffsetMeans (text : String) (old new : Int) : Prop :=
  denotedInt 0 text = some new ∨ (denotedInt 0 text = none ∧ (new = old ∨ new = defaultNmdmOffset))

/-- No zero is to replace another offset, and an integer that is no `int` happens to come out as one that is harmless. -/
def OffsetPlain (text : String) (old : Int) : Prop :=
  (denotedInt 0 text = some 0 → old = 0) ∧
    ∀ v, denoted 0 text = some v → ¬inInt v → wrap32 (clamp v) ∈ [0, old, defaultNmdmOffset]

/-- `REPLACE_INT`: the value `new` that is in effect when `n` was read. -/
theorem offsetMeans_iff {old new : Int}
    (h : new = let n := ((strtolAll 0 text).map wrap32).getD defaultNmdmOffset; if n ≠ 0 then n else old) :
    OffsetMeans text old new ↔ OffsetPlain text old := by
  unfold OffsetMeans OffsetPlain
  rw [strtolAll_eq] at h
  cases hden : denoted 0 text with
  | none =>
    have hint : denotedInt 0 text = none := denotedInt_eq_none.mpr fun v hv => by
      rw [hden] at hv
      cases hv
    rw [hden] at h
    rw [hint]
    refine iff_of_true (.inr ⟨rfl, ?_⟩) ⟨fun hzero => ?_, fun v hv => ?_⟩
    rotate_left
    · cases hzero
    · cases hv
    by_cases hempty : text = ""
    · rw [if_pos hempty] at h
      exact .inl h
    · rw [if_neg hempty] at h
      exact .inr h
  | some v =>
    rw [if_neg (ne_empty_of_denoted hden), hden] at h
    have hnew : new = if wrap32 (clamp v) ≠ 0 then wrap32 (clamp v) else old := h
    by_cases hv : inInt v
    · have hint : denotedInt 0 text = some v := denotedInt_eq_some.mpr ⟨hden, hv⟩
      rw [wrap32_clamp hv] at hnew
      rw [hint, hnew]
      by_cases hzero : v = 0
      · subst hzero
        simp [inInt, eq_comm]
      · simp [hzero, hv]
    · have hint : denotedInt 0 text = none := denotedInt_eq_none.mpr fun w hw => by
        rw [hden] at hw
        exact Option.some.inj hw ▸ hv
      rw [hint, hnew]
      by_cases hzero : wrap32 (clamp v) = 0
      · simp [hzero]
      · simp [hzero, hv]

/-! ## Whole loads -/

/-- **When integer parameters mean what is written.** In every entry of a load, a key has the numbers of the last value
    it was given, or was left alone by a value that denotes none, exactly when that value has no empty text in place of
    an integer and none that is outside of `int`. After the merge the same holds of `nmdm_offset` exactly when no zero
    is to replace another offset and an integer outside of `int` comes out harmless. -/
theorem int_params_iff (sys : Sys) (p p' : Process) (list update : Bool) (ctx : Pctxt) (r : Loaded)
    (h : finishLoadConfig sys p list update ctx = .ok p' r) :
    (∀ ent ∈ r.list, ∃ sc ∈ ctx.cfvms, ∃ name id w, sc.name = some name ∧
      Executes { sys := sys, plugins := p'.pluginList } p'.globalVars ctx.cftemplates id name sc w ∧
      confEntOf name id w.draft = some ent ∧
      ∀ (k : IntKey) g, w.values.find? (·.key == k.entry.name) = some g → (k.Means g ent.conf ↔ k.Plain g.text)) ∧
    (update = true → ∀ text, r.globalConf.nmdmOffsetText = some text →
      (OffsetMeans text p.glConf.nmdmOffset p'.glConf.nmdmOffset ↔ OffsetPlain text p.glConf.nmdmOffset)) := by
  constructor
  · intro ent hent
    obtain ⟨sc, hsc, name, id, w, hname, -, hrun, hent⟩ := finishLoadConfig_entry h hent
    exact ⟨sc, hsc, name, id, w, hname, hrun, hent, fun k g hg => k.means_iff hrun hent hg⟩
  · rintro rfl text htext
    obtain ⟨⟨vars, hglobals⟩, hgl⟩ := finishLoadConfig_globalConf h
    refine offsetMeans_iff ?_
    rw [hgl, ← setGlobals_offsetRead hglobals text htext]
    rfl

/-- A VM section with a number of processors. -/
def ncpuSection (ncpu : String) : Cfsection :=
  { name := some "a", params := [.set "memory" "1G", .set "loader" "uefi", .set "ncpu" ncpu], argdefs := [], applied := 0
    duplicate := 0, owner := 0, filename := "/m" }

/-- A file with an offset and a number of processors. -/
def numbersCtx (offset ncpu : String) : Pctxt :=
  { Pctxt.empty with
    cfglobals := [{ name := none, params := [.set "nmdm_offset" offset], argdefs := [], applied := 0, duplicate := 0
                    owner := 0, filename := "/m" }]
    cfvms := [ncpuSection ncpu] }

/-- What is left of the numbers by a load. -/
def numbersOf : Outcome → List (Option String) × Option String × Int
  | .ok p r => (r.list.map (·.conf.ncpu), r.globalConf.nmdmOffsetText, p.glConf.nmdmOffset)
  | _ => ([], none, 0)

theorem exists_numbers {o : Outcome} {n : Int} (h : numbersOf o = ([some ncpu], some text, n)) :
    ∃ p r ent, o = .ok p r ∧ r.list = [ent] ∧ ent.conf.ncpu = some ncpu ∧ r.globalConf.nmdmOffsetText = some text ∧
      p.glConf.nmdmOffset = n := by
  cases o with
  | ok p r =>
    obtain ⟨hlist, h⟩ := Prod.mk.inj h
    obtain ⟨htext, hn⟩ := Prod.mk.inj h
    obtain ⟨ent, hent, hncpu⟩ := List.map_eq_singleton_iff.mp hlist
    exact ⟨p, r, ent, rfl, hent, hncpu, htext, hn⟩
  | crash => cases h
  | fail => cases h

/-- An offset and a number of processors that are in effect as they are written. -/
theorem int_params_plain : ∃ p r ent sc name id w,
    finishLoadConfig (.of []) (.init "/m") true true (numbersCtx "300" "2") = .ok p r ∧ r.list = [ent] ∧
    ent.conf.ncpu = some "2" ∧ Executes { sys := .of [], plugins := p.pluginList } p.globalVars [] id name sc w ∧
    (∀ (k : IntKey) g, w.values.find? (·.key == k.entry.name) = some g → (k.Means g ent.conf ↔ k.Plain g.text)) ∧
    OffsetMeans "300" defaultNmdmOffset p.glConf.nmdmOffset := by
  obtain ⟨p, r, ent, hload, hlist, hncpu, htext, -⟩ := exists_numbers
    (show numbersOf (finishLoadConfig (.of []) (.init "/m") true true (numbersCtx "300" "2")) = ([some "2"], some "300", 300)
      by decide +kernel)
  obtain ⟨hvms, hoffset⟩ := int_params_iff _ _ _ _ _ _ _ hload
  obtain ⟨sc, -, name, id, w, -, hrun, -, hmeans⟩ := hvms ent (hlist ▸ List.mem_singleton_self ent)
  have hden : denoted 0 "300" = some 300 := by decide +kernel
  refine ⟨p, r, ent, sc, name, id, w, hload, hlist, hncpu, hrun, hmeans, (hoffset rfl "300" htext).mpr ⟨?_, ?_⟩⟩
  · intro hzero
    rw [(denotedInt_eq_some.mp hzero).1] at hden
    cases hden
  · intro v hv hint
    rw [hden] at hv
    obtain rfl := Option.some.inj hv
    exact absurd (by decide) hint

/-- The execution of `ncpuSection`: the last number of processors that was given, and the one in effect. -/
def lastNcpu (ncpu : String) : Option (String × Option String) := do
  let (_, w) ← (vmConfSetParams ownerEnv 1 (ncpuSection ncpu)
    { draft := beginDraft ownerEnv [] 0 "a" 0, templates := [], reached := [], executed := [] }).toOption
  let g ← w.values.find? (·.key == "ncpu")
  let ent ← confEntOf "a" 0 w.draft
  return (g.text, ent.conf.ncpu)

theorem exists_lastNcpu {shown : Option String} (h : lastNcpu ncpu = some (text, shown)) :
    ∃ w g ent, Executes ownerEnv [] [] 0 "a" (ncpuSection ncpu) w ∧ confEntOf "a" 0 w.draft = some ent ∧
      w.values.find? (·.key == "ncpu") = some g ∧ g.text = text ∧ ent.conf.ncpu = shown := by
  unfold lastNcpu at h
  unfold Executes
  obtain ⟨x, hx, h⟩ := Option.bind_eq_some_iff.mp h
  obtain ⟨g, hg, h⟩ := Option.bind_eq_some_iff.mp h
  obtain ⟨ent, hent, h⟩ := Option.bind_eq_some_iff.mp h
  obtain ⟨rfl, rfl⟩ := Prod.mk.inj (Option.some.inj h)
  refine ⟨x.2, g, ent, ?_, hent, hg, rfl, rfl⟩
  cases hrun : vmConfSetParams ownerEnv 1 (ncpuSection ncpu)
      { draft := beginDraft ownerEnv [] 0 "a" 0, templates := [], reached := [], executed := [] } with
  | error c =>
    rw [hrun] at hx
    cases hx
  | ok y =>
    rw [hrun] at hx
    obtain rfl := Option.some.inj hx
    exact hrun

/-- **An integer outside of `int` and an empty text are accepted as other numbers, and a zero is ignored**:
    `ncpu = 4294967297` gives one processor, `ncpu = ""` none at all, and `nmdm_offset = 0` leaves the offset at 200. -/
theorem int_params_differ :
    (∃ w g ent, Executes ownerEnv [] [] 0 "a" (ncpuSection "4294967297") w ∧ confEntOf "a" 0 w.draft = some ent ∧
      w.values.find? (·.key == "ncpu") = some g ∧ g.text = "4294967297" ∧ ent.conf.ncpu = some "1" ∧
      ¬IntKey.ncpu.Means g ent.conf) ∧
    (∃ w g ent, Executes ownerEnv [] [] 0 "a" (ncpuSection "") w ∧ confEntOf "a" 0 w.draft = some ent ∧
      w.values.find? (·.key == "ncpu") = some g ∧ g.text = "" ∧ ent.conf.ncpu = some "0" ∧
      ¬IntKey.ncpu.Means g ent.conf) ∧
    ∃ p r, finishLoadConfig (.of []) (.init "/m") true true (numbersCtx "0" "2") = .ok p r ∧
      r.globalConf.nmdmOffsetText = some "0" ∧ p.glConf.nmdmOffset = 200 ∧
      ¬OffsetMeans "0" defaultNmdmOffset p.glConf.nmdmOffset := by
  refine ⟨?_, ?_, ?_⟩
  · obtain ⟨w, g, ent, hrun, hent, hg, htext, hncpu⟩ := exists_lastNcpu
      (show lastNcpu "4294967297" = some ("4294967297", some "1") by decide +kernel)
    refine ⟨w, g, ent, hrun, hent, hg, htext, hncpu, fun hmeans => ?_⟩
    have hplain := (IntKey.ncpu.means_iff hrun hent hg).mp hmeans
    rw [htext] at hplain
    have hnone := hplain ["4294967297"] rfl (by decide +kernel) "4294967297" (List.mem_singleton_self _)
    revert hnone
    decide +kernel
  · obtain ⟨w, g, ent, hrun, hent, hg, htext, hncpu⟩ := exists_lastNcpu
      (show lastNcpu "" = some ("", some "0") by decide +kernel)
    refine ⟨w, g, ent, hrun, hent, hg, htext, hncpu, fun hmeans => ?_⟩
    have hplain := (IntKey.ncpu.means_iff hrun hent hg).mp hmeans
    rw [htext] at hplain
    have hnone := hplain [""] rfl (by decide +kernel) "" (List.mem_singleton_self _)
    revert hnone
    decide +kernel
  · obtain ⟨p, r, ent, hload, -, -, htext, hoffset⟩ := exists_numbers
      (show numbersOf (finishLoadConfig (.of []) (.init "/m") true true (numbersCtx "0" "2")) = ([some "2"], some "0", 200)
        by decide +kernel)
    refine ⟨p, r, hload, htext, hoffset, ?_⟩
    rw [hoffset]
    rintro (hzero | ⟨hnone, -⟩)
    · revert hzero
      decide +kernel
    · revert hnone
      decide +kernel

end Bmd
