import Bmd.Conf.Pool
import Bmd.Lib.Tiling
import Mathlib.Algebra.GroupWithZero.Nat
import Mathlib.Tactic.Push

/-!
# `Correctness.Regions` — the regions that `mpool_alloc` hands out

`PoolRun` follows any sequence of calls of the `mpool_*` functions, with a record of the regions that were handed out
and not rolled back. The invariant is that the regions in a pool fill its data area up to `used`, and those from before
the last snapshot fill it up to `last_used`. Everything else is read off that.
-/

namespace Bmd

open Lib

namespace Mpools

/-! ## Errors -/

/-- An allocation has failed since the last snapshot. -/
def Flagged (m : Mpools) : Prop := ∃ p ∈ m.pools, p.errorNumber ≠ .none

theorem worse_eq_none (e f : MpoolError) : e.worse f = .none ↔ e = .none ∧ f = .none := by
  cases e <;> cases f <;> decide

theorem foldl_worse_eq_none : ∀ (pools : List Mpool) (e : MpoolError),
    pools.foldl (fun e p => e.worse p.errorNumber) e = .none ↔ e = .none ∧ ∀ p ∈ pools, p.errorNumber = .none
  | [], e => by simp
  | p :: rest, e => by
    rw [List.foldl_cons, foldl_worse_eq_none rest, worse_eq_none, List.forall_mem_cons, and_assoc]

variable {m : Mpools}

theorem mpoolGetError_eq_none : m.mpoolGetError = .none ↔ ¬m.Flagged := by
  unfold mpoolGetError Flagged
  rw [foldl_worse_eq_none]
  push Not
  exact ⟨And.right, fun h => ⟨rfl, h⟩⟩

/-! ## One allocation -/

variable {sz : Nat} {e : MpoolError}

/-- The pool from which the bytes are taken. -/
theorem take_some {cap : Option Nat} : ∀ {i : Nat} {pools pools' : List Mpool} {r : Region},
    take cap sz i pools = some (r, pools') → ∃ before p after, pools = before ++ p :: after ∧ fits cap sz p = true ∧
      r = { pool := i + before.length, offset := p.used, size := sz } ∧
      pools' = before ++ { p with used := p.used + sz } :: after
  | _, [], _, _, h => by cases h
  | i, p :: rest, pools', r, h => by
    unfold take at h
    split at h
    · next hfits =>
      obtain ⟨rfl, rfl⟩ := Prod.mk.inj (Option.some.inj h)
      exact ⟨[], p, rest, rfl, hfits, rfl, rfl⟩
    · obtain ⟨⟨r', rest'⟩, htake, heq⟩ := Option.map_eq_some_iff.mp h
      obtain ⟨rfl, rfl⟩ := Prod.mk.inj heq
      obtain ⟨before, q, after, rfl, hfits, rfl, rfl⟩ := take_some htake
      refine ⟨p :: before, q, after, rfl, hfits, ?_, rfl⟩
      rw [List.length_cons, Nat.add_right_comm, Nat.add_assoc]

theorem take_none {cap : Option Nat} : ∀ {i : Nat} {pools : List Mpool},
    take cap sz i pools = none → ∀ p ∈ pools, fits cap sz p = false
  | _, [], _, _, hp => by cases hp
  | i, q :: rest, h, p, hp => by
    unfold take at h
    split at h
    · cases h
    · next hfits =>
      obtain rfl | hp := List.mem_cons.mp hp
      · exact Bool.eq_false_iff.mpr hfits
      · exact take_none (Option.map_eq_none_iff.mp h) p hp

/-- A request that fits into a pool of this size. -/
def Fit (cap : Option Nat) (sz : Nat) : Prop := ∀ c, cap = some c → roundup8 sz ≤ c

/-- The ways an allocation can go. -/
theorem mpoolAlloc_cases (sz : Nat) (m : Mpools) :
    (∃ before p after, m.pools = before ++ p :: after ∧
      ((m.mpoolAlloc sz).1 = some { pool := before.length, offset := p.used, size := roundup8 sz } ∧
        fits m.cap (roundup8 sz) p = true) ∧
      (m.mpoolAlloc sz).2 = { m with pools := before ++ { p with used := p.used + roundup8 sz } :: after }) ∨
    ((m.mpoolAlloc sz).1 = none ∧ ∃ e, e ≠ .none ∧ (m.mpoolAlloc sz).2 = m.setError e ∧
      (Fit m.cap sz → e = .alloc ∧ ∀ p ∈ m.pools, fits m.cap (roundup8 sz) p = false)) := by
  simp only [mpoolAlloc]
  split
  · next hlarge =>
    refine .inr ⟨rfl, .fatal, by decide, rfl, fun hfit => ?_⟩
    cases hcap : m.cap with
    | none =>
      rw [hcap] at hlarge
      cases hlarge
    | some c =>
      rw [hcap] at hlarge
      exact absurd (hfit c hcap) (Nat.not_le.mpr (of_decide_eq_true hlarge))
  · cases htake : take m.cap (roundup8 sz) 0 m.pools with
    | none => exact .inr ⟨rfl, .alloc, by decide, rfl, fun _ => ⟨rfl, take_none htake⟩⟩
    | some r =>
      obtain ⟨before, p, after, hpools, hfits, hregion, hr⟩ := take_some htake
      refine .inl ⟨before, p, after, hpools, ⟨?_, hfits⟩, ?_⟩
      · show some r.1 = _
        rw [hregion, Nat.zero_add]
      · rw [← hr]

/-- A successful allocation does not touch the errors. -/
theorem flagged_take {before after : List Mpool} {p : Mpool} {n : Nat} (hm : m.pools = before ++ p :: after) :
    Flagged { m with pools := before ++ { p with used := n } :: after } ↔ m.Flagged := by
  simp only [Flagged, hm, List.mem_append, List.mem_cons, or_and_right, exists_or, exists_eq_left]

theorem setError_flagged (hm : m.pools ≠ []) (he : e ≠ .none) : (m.setError e).Flagged := by
  unfold setError
  split
  · next h => exact absurd h hm
  · exact ⟨_, List.mem_cons_self, he⟩

end Mpools

/-! ## Runs -/

/-- A call. The sizes are those for which `roundup2` does not overflow. -/
inductive PoolOp where
  | alloc (sz : Fin (2 ^ 63))
  | expand
  | snapshot
  | rollback

/-- A region, and the size that was asked for. -/
structure Grant where
  region : Region
  asked : Nat
  deriving DecidableEq, Repr

/-- The pools; the regions that were handed out and not rolled back, the last one first; those that there were at the
    last snapshot; and whether a request has failed since then. -/
structure PoolRun where
  mpools : Mpools
  live : List Grant
  mark : List Grant
  failed : Bool

namespace PoolRun

/-- `mpool_init`. -/
def init : PoolRun := { mpools := .mpoolInit (some defaultCap), live := [], mark := [], failed := false }

/-- A call of `mpool_alloc`. -/
def alloc (s : PoolRun) (sz : Nat) : PoolRun :=
  match (s.mpools.mpoolAlloc sz).1 with
  | none => { s with mpools := (s.mpools.mpoolAlloc sz).2, failed := true }
  | some r => { s with mpools := (s.mpools.mpoolAlloc sz).2, live := { region := r, asked := sz } :: s.live }

def step (s : PoolRun) : PoolOp → PoolRun
  | .alloc sz => s.alloc sz
  | .expand => { s with mpools := s.mpools.mpoolExpand }
  | .snapshot => { s with mpools := s.mpools.mpoolSnapshot, mark := s.live, failed := false }
  | .rollback => { s with mpools := s.mpools.mpoolRollback, live := s.mark }

def run (ops : List PoolOp) : PoolRun := ops.foldl step init

end PoolRun

/-! ## The invariant -/

/-- The place of the region in its pool. -/
def Region.piece (r : Region) : Piece := { start := r.offset, size := r.size }

/-- The places of the regions in a pool. -/
def piecesIn (i : Nat) (gs : List Grant) : List Piece :=
  (gs.filter (·.region.pool == i)).map (·.region.piece)

theorem mem_piecesIn {i : Nat} {gs : List Grant} {p : Piece} :
    p ∈ piecesIn i gs ↔ ∃ g ∈ gs, g.region.pool = i ∧ g.region.piece = p := by
  simp [piecesIn, and_assoc]

theorem piecesIn_cons_self (g : Grant) (gs : List Grant) :
    piecesIn g.region.pool (g :: gs) = g.region.piece :: piecesIn g.region.pool gs := by
  simp [piecesIn]

theorem piecesIn_cons_ne {i : Nat} {g : Grant} (h : g.region.pool ≠ i) (gs : List Grant) :
    piecesIn i (g :: gs) = piecesIn i gs := by
  simp [piecesIn, h]

/-- The pools hold the regions: `live` below `used`, and `mark` below `last_used`. -/
def Filled (pools : List Mpool) (live mark : List Grant) : Prop :=
  ∀ i p, pools[i]? = some p → (Tiles (piecesIn i live) p.used ∧ p.used ≤ defaultCap) ∧
    Tiles (piecesIn i mark) p.lastUsed ∧ p.lastUsed ≤ defaultCap

/-- A region in a pool of the list, as large as was asked for, in units of 8 bytes. -/
structure Grant.Granted (pools : List Mpool) (g : Grant) : Prop where
  pool : g.region.pool < pools.length
  asked : g.asked ≤ g.region.size
  dvd : 8 ∣ g.region.size

/-- **The invariant of the pools.** -/
structure PoolRun.Sound (s : PoolRun) : Prop where
  cap : s.mpools.cap = some defaultCap
  pools : s.mpools.pools ≠ []
  filled : Filled s.mpools.pools s.live s.mark
  granted : ∀ g ∈ s.live, g.Granted s.mpools.pools
  since : s.mark <:+ s.live
  flagged : s.failed = true → s.mpools.Flagged

namespace PoolRun.Sound

variable {s : PoolRun}

theorem init : PoolRun.init.Sound where
  cap := rfl
  pools := List.cons_ne_nil _ _
  filled i p hp := by
    obtain ⟨rfl, rfl⟩ : i = 0 ∧ p = Mpools.fresh := by
      cases i with
      | zero => exact ⟨rfl, (Option.some.inj hp).symm⟩
      | succ i => cases hp
    exact ⟨⟨rfl, Nat.zero_le _⟩, rfl, Nat.zero_le _⟩
  granted := List.forall_mem_nil _
  since := List.suffix_refl _
  flagged h := by cases h

theorem snapshot (h : s.Sound) : (s.step .snapshot).Sound where
  cap := h.cap
  pools hnil := h.pools (List.map_eq_nil_iff.mp hnil)
  filled i p hp := by
    obtain ⟨q, hq, rfl⟩ := Option.map_eq_some_iff.mp ((List.getElem?_map ..).symm.trans hp)
    exact ⟨(h.filled i q hq).1, (h.filled i q hq).1⟩
  granted g hg := by
    obtain ⟨hpool, hasked, hdvd⟩ := h.granted g hg
    exact ⟨by rwa [PoolRun.step, Mpools.mpoolSnapshot, List.length_map], hasked, hdvd⟩
  since := List.suffix_refl _
  flagged h := by cases h

theorem rollback (h : s.Sound) : (s.step .rollback).Sound where
  cap := h.cap
  pools hnil := h.pools (List.map_eq_nil_iff.mp hnil)
  filled i p hp := by
    obtain ⟨q, hq, rfl⟩ := Option.map_eq_some_iff.mp ((List.getElem?_map ..).symm.trans hp)
    exact ⟨(h.filled i q hq).2, (h.filled i q hq).2⟩
  granted g hg := by
    obtain ⟨hpool, hasked, hdvd⟩ := h.granted g (h.since.subset hg)
    exact ⟨by rwa [PoolRun.step, Mpools.mpoolRollback, List.length_map], hasked, hdvd⟩
  since := List.suffix_refl _
  flagged hfailed := by
    obtain ⟨p, hp, herr⟩ := h.flagged hfailed
    exact ⟨{ p with used := p.lastUsed }, List.mem_map_of_mem hp, herr⟩

/-- No region is in a pool that is yet to come. -/
theorem piecesIn_fresh {gs : List Grant} {n : Nat} (h : ∀ g ∈ gs, g.region.pool < n) : piecesIn n gs = [] := by
  refine List.eq_nil_iff_forall_not_mem.mpr fun p hp => ?_
  obtain ⟨g, hg, hpool, -⟩ := mem_piecesIn.mp hp
  exact Nat.lt_irrefl n (hpool ▸ h g hg)

theorem expand (h : s.Sound) : (s.step .expand).Sound where
  cap := h.cap
  pools hnil := by
    have hlen := congrArg List.length hnil
    rw [PoolRun.step, Mpools.mpoolExpand, List.length_append] at hlen
    cases hlen
  filled i p hp := by
    have hlive : ∀ g ∈ s.live, g.region.pool < s.mpools.pools.length := fun g hg => (h.granted g hg).pool
    have hp : (s.mpools.pools ++ [Mpools.fresh])[i]? = some p := hp
    rw [List.getElem?_append] at hp
    split at hp
    · exact h.filled i p hp
    · obtain ⟨hi, rfl⟩ : i = s.mpools.pools.length ∧ p = Mpools.fresh := by
        obtain ⟨hlt, hp⟩ := List.getElem?_eq_some_iff.mp hp
        rw [List.length_singleton] at hlt
        exact ⟨by omega, by rw [← hp, List.getElem_singleton]⟩
      show (Tiles (piecesIn i s.live) _ ∧ _) ∧ Tiles (piecesIn i s.mark) _ ∧ _
      rw [hi, piecesIn_fresh hlive, piecesIn_fresh fun g hg => hlive g (h.since.subset hg)]
      exact ⟨⟨rfl, Nat.zero_le _⟩, rfl, Nat.zero_le _⟩
  granted g hg := by
    obtain ⟨hpool, hasked, hdvd⟩ := h.granted g hg
    refine ⟨?_, hasked, hdvd⟩
    rw [PoolRun.step, Mpools.mpoolExpand, List.length_append]
    exact Nat.lt_succ_of_lt hpool
  since := h.since
  flagged hfailed := by
    obtain ⟨p, hp, herr⟩ := h.flagged hfailed
    exact ⟨p, List.mem_append_left _ hp, herr⟩

/-- Only the marks of the pools count. -/
theorem filled_of_map {pools pools' : List Mpool} {live mark : List Grant} (h : Filled pools live mark)
    (hmap : pools'.map (fun p => (p.used, p.lastUsed)) = pools.map fun p => (p.used, p.lastUsed)) :
    Filled pools' live mark := by
  intro i p' hp'
  have hi : (pools.map fun p => (p.used, p.lastUsed))[i]? = some (p'.used, p'.lastUsed) := by
    rw [← hmap, List.getElem?_map, hp']
    rfl
  obtain ⟨p, hp, heq⟩ := Option.map_eq_some_iff.mp ((List.getElem?_map ..).symm.trans hi)
  obtain ⟨hused, hlast⟩ := Prod.mk.inj heq
  rw [← hused, ← hlast]
  exact h i p hp

theorem setError_map (m : Mpools) (e : MpoolError) :
    (m.setError e).pools.map (fun p => (p.used, p.lastUsed)) = m.pools.map fun p => (p.used, p.lastUsed) := by
  unfold Mpools.setError
  split
  · rfl
  · next hpools =>
    rw [hpools]
    rfl

theorem setError_length (m : Mpools) (e : MpoolError) : (m.setError e).pools.length = m.pools.length := by
  have hlen := congrArg List.length (setError_map m e)
  rwa [List.length_map, List.length_map] at hlen

/-- A request that fails leaves the regions as they are. -/
theorem refused {e : MpoolError} (he : e ≠ .none) (h : s.Sound) :
    PoolRun.Sound { s with mpools := s.mpools.setError e, failed := true } where
  cap := by
    show (s.mpools.setError e).cap = _
    unfold Mpools.setError
    split <;> exact h.cap
  pools hnil := by
    refine h.pools (List.eq_nil_of_length_eq_zero ?_)
    rw [← setError_length s.mpools e]
    exact congrArg List.length hnil
  filled := filled_of_map h.filled (setError_map s.mpools e)
  granted g hg := by
    obtain ⟨hpool, hasked, hdvd⟩ := h.granted g hg
    exact ⟨by rwa [setError_length], hasked, hdvd⟩
  since := h.since
  flagged _ := Mpools.setError_flagged h.pools he

/-- The elements of a list beside the one that is replaced. -/
theorem getElem?_replaced {α : Type} {before after : List α} {x y : α} {i : Nat} (h : i ≠ before.length) :
    (before ++ y :: after)[i]? = (before ++ x :: after)[i]? := by
  rw [List.getElem?_append, List.getElem?_append]
  split
  · rfl
  · obtain ⟨j, hj⟩ : ∃ j, i - before.length = j + 1 := ⟨i - before.length - 1, by omega⟩
    rw [hj]
    rfl

theorem le_roundup8 (sz : Nat) : sz ≤ roundup8 sz := by
  unfold roundup8
  omega

/-- The region is put behind those that are in the pool. -/
theorem served {before after : List Mpool} {p : Mpool} {sz : Nat} (h : s.Sound)
    (hpools : s.mpools.pools = before ++ p :: after) (hroom : p.used + roundup8 sz ≤ defaultCap) :
    PoolRun.Sound { s with
      mpools := { s.mpools with pools := before ++ { p with used := p.used + roundup8 sz } :: after }
      live := { region := { pool := before.length, offset := p.used, size := roundup8 sz }, asked := sz } :: s.live } where
  cap := h.cap
  pools := by simp
  filled i q hq := by
    have hq : (before ++ { p with used := p.used + roundup8 sz } :: after)[i]? = some q := hq
    by_cases hi : i = before.length
    · obtain rfl := hi
      have hp : s.mpools.pools[before.length]? = some p := by simp [hpools]
      obtain ⟨⟨hlive, -⟩, hmark⟩ := h.filled _ p hp
      obtain rfl : { p with used := p.used + roundup8 sz } = q := by simpa using hq
      refine ⟨⟨?_, hroom⟩, hmark⟩
      rw [piecesIn_cons_self { region := { pool := before.length, offset := p.used, size := roundup8 sz }, asked := sz }]
      exact ⟨rfl, hlive⟩
    · rw [getElem?_replaced hi (x := p), ← hpools] at hq
      rw [piecesIn_cons_ne (Ne.symm hi)]
      exact h.filled i q hq
  granted g hg := by
    have hlen : (before ++ { p with used := p.used + roundup8 sz } :: after).length = s.mpools.pools.length := by
      simp [hpools]
    obtain rfl | hg := List.mem_cons.mp hg
    · refine ⟨?_, le_roundup8 sz, ⟨(sz + 7) / 8, Nat.mul_comm ..⟩⟩
      rw [hlen, hpools, List.length_append]
      exact Nat.lt_add_of_pos_right (Nat.zero_lt_succ _)
    · obtain ⟨hpool, hasked, hdvd⟩ := h.granted g hg
      exact ⟨by rwa [hlen], hasked, hdvd⟩
  since := h.since.trans (List.suffix_cons _ _)
  flagged hfailed := (Mpools.flagged_take hpools).mpr (h.flagged hfailed)

theorem alloc (h : s.Sound) (sz : Nat) : (s.alloc sz).Sound := by
  unfold PoolRun.alloc
  obtain ⟨before, p, after, hpools, ⟨hsome, hfits⟩, hm⟩ | ⟨hnone, e, he, hm, -⟩ := Mpools.mpoolAlloc_cases sz s.mpools
  · rw [hsome, hm]
    rw [h.cap] at hfits
    exact h.served hpools (of_decide_eq_true hfits)
  · rw [hnone, hm]
    exact h.refused he

/-- **One call.** -/
theorem step (h : s.Sound) : ∀ op, (s.step op).Sound
  | .alloc sz => h.alloc sz
  | .expand => h.expand
  | .snapshot => h.snapshot
  | .rollback => h.rollback

/-- **Any sequence of calls.** -/
theorem steps (ops : List PoolOp) (h : s.Sound) : (ops.foldl PoolRun.step s).Sound := by
  induction ops generalizing s with
  | nil => exact h
  | cons op rest ih => exact ih (h.step op)

theorem run (ops : List PoolOp) : (PoolRun.run ops).Sound := init.steps ops

end PoolRun.Sound

/-! ## Regions in memory -/

/-- `DEFAULT_MMAP_SIZE`. -/
def mmapSize : Nat := 4096 * 64

/-- `sizeof(struct mpool)`, where the data area begins. -/
def mpoolHeader : Nat := 40

/-- Where the pools are: `mmap` maps whole pages, and none of them twice. -/
structure Layout where
  base : Nat → Nat
  page : ∀ i, 4096 ∣ base i
  apart : ∀ i j, i ≠ j → base i + mmapSize ≤ base j ∨ base j + mmapSize ≤ base i

/-- The bytes of a region. -/
def Layout.bytes (L : Layout) (r : Region) : Piece := { start := L.base r.pool + mpoolHeader + r.offset, size := r.size }

/-- The data area of a pool. -/
def Layout.data (L : Layout) (i : Nat) : Piece := { start := L.base i + mpoolHeader, size := defaultCap }

/-- The byte `x` of the data area of pool `i` is in use. -/
def Mpools.InUse (m : Mpools) (i x : Nat) : Prop := ∃ p, m.pools[i]? = some p ∧ x < p.used

namespace PoolRun.Sound

variable {s : PoolRun}

/-- The bytes in use are those of the regions. -/
theorem inUse_iff (h : s.Sound) {i x : Nat} :
    s.mpools.InUse i x ↔ ∃ g ∈ s.live, g.region.pool = i ∧ g.region.piece.Has x := by
  have hpiece : (∃ p ∈ piecesIn i s.live, p.Has x) ↔ ∃ g ∈ s.live, g.region.pool = i ∧ g.region.piece.Has x := by
    constructor
    · rintro ⟨p, hp, hx⟩
      obtain ⟨g, hg, hi, rfl⟩ := mem_piecesIn.mp hp
      exact ⟨g, hg, hi, hx⟩
    · rintro ⟨g, hg, hi, hx⟩
      exact ⟨_, mem_piecesIn.mpr ⟨g, hg, hi, rfl⟩, hx⟩
  rw [← hpiece]
  constructor
  · rintro ⟨p, hp, hx⟩
    exact (h.filled i p hp).1.1.covers.mp hx
  · intro hx
    obtain ⟨g, hg, hi, -⟩ := hpiece.mp hx
    have hlt : i < s.mpools.pools.length := hi ▸ (h.granted g hg).pool
    have hp := List.getElem?_eq_getElem hlt
    exact ⟨_, hp, (h.filled i _ hp).1.1.covers.mpr hx⟩

/-- A region is below `used` of its pool. -/
theorem stop_le (h : s.Sound) {g : Grant} (hg : g ∈ s.live) : 8 ∣ g.region.offset ∧ g.region.piece.stop ≤ defaultCap := by
  have hp := List.getElem?_eq_getElem (h.granted g hg).pool
  obtain ⟨⟨htiles, hused⟩, -⟩ := h.filled _ _ hp
  have hmem : g.region.piece ∈ piecesIn g.region.pool s.live := mem_piecesIn.mpr ⟨g, hg, rfl, rfl⟩
  refine ⟨(htiles.dvd ?_).2 _ hmem, Nat.le_trans (htiles.stop_le _ hmem) hused⟩
  intro p hp
  obtain ⟨g', hg', -, rfl⟩ := mem_piecesIn.mp hp
  exact (h.granted g' hg').dvd

/-- Regions of one pool do not overlap. -/
theorem apart (h : s.Sound) :
    s.live.Pairwise fun g g' => g.region.pool = g'.region.pool → g.region.piece.Apart g'.region.piece := by
  have hpool : ∀ i, (s.live.filter (·.region.pool == i)).Pairwise fun g g' => g.region.piece.Apart g'.region.piece := by
    intro i
    by_cases hi : i < s.mpools.pools.length
    · have hp := List.getElem?_eq_getElem hi
      exact List.pairwise_map.mp (h.filled i _ hp).1.1.apart
    · have hnil : s.live.filter (·.region.pool == i) = [] := by
        refine List.filter_eq_nil_iff.mpr fun g hg hgi => hi ?_
        rw [← eq_of_beq hgi]
        exact (h.granted g hg).pool
      rw [hnil]
      exact .nil
  refine List.pairwise_iff_forall_sublist.mpr fun {g g'} hsub hsame => ?_
  have hsub' := hsub.filter (·.region.pool == g'.region.pool)
  have hpair : [g, g'].filter (·.region.pool == g'.region.pool) = [g, g'] := by simp [hsame]
  rw [hpair] at hsub'
  exact List.pairwise_iff_forall_sublist.mp (hpool g'.region.pool) hsub'

/-- **What a rollback takes back**: the bytes of the regions that were handed out since the snapshot. -/
theorem rollback_inUse (h : s.Sound) {since : List Grant} (hsince : s.live = since ++ s.mark) (i x : Nat) :
    (s.step .rollback).mpools.InUse i x ↔
      s.mpools.InUse i x ∧ ¬∃ g ∈ since, g.region.pool = i ∧ g.region.piece.Has x := by
  rw [h.rollback.inUse_iff, h.inUse_iff, hsince]
  show (∃ g ∈ s.mark, _) ↔ _
  have hapart := h.apart
  rw [hsince] at hapart
  constructor
  · rintro ⟨g, hg, hi, hx⟩
    refine ⟨⟨g, List.mem_append_right _ hg, hi, hx⟩, ?_⟩
    rintro ⟨g', hg', hi', hx'⟩
    obtain hle | hle := (List.pairwise_append.mp hapart).2.2 g' hg' g hg (hi'.trans hi.symm)
    · exact Nat.lt_irrefl x (Nat.lt_of_lt_of_le hx'.2 (Nat.le_trans hle hx.1))
    · exact Nat.lt_irrefl x (Nat.lt_of_lt_of_le hx.2 (Nat.le_trans hle hx'.1))
  · rintro ⟨⟨g, hg, hi, hx⟩, hno⟩
    obtain hg | hg := List.mem_append.mp hg
    · exact absurd ⟨g, hg, hi, hx⟩ hno
    · exact ⟨g, hg, hi, hx⟩

/-- **When a request fails**: it is too large for a pool, or no pool has room for it. -/
theorem alloc_none (h : s.Sound) {sz : Nat} (hnone : (s.mpools.mpoolAlloc sz).1 = none) :
    defaultCap < sz ∨ ∀ p ∈ s.mpools.pools, defaultCap < p.used + sz := by
  obtain ⟨before, p, after, -, ⟨hsome, -⟩, -⟩ | ⟨-, e, -, -, hcause⟩ := Mpools.mpoolAlloc_cases sz s.mpools
  · rw [hnone] at hsome
    cases hsome
  by_cases hlarge : defaultCap < sz
  · exact .inl hlarge
  refine .inr fun p hp => ?_
  -- The capacity and `used` are multiples of 8, so rounding up makes no difference.
  have hcap : defaultCap = 8 * 32763 := rfl
  have hfit : Mpools.Fit s.mpools.cap sz := by
    intro c hc
    rw [h.cap] at hc
    obtain rfl := Option.some.inj hc
    unfold roundup8
    omega
  have hfull := (hcause hfit).2 p hp
  rw [h.cap] at hfull
  have hlt : ¬p.used + roundup8 sz ≤ defaultCap := of_decide_eq_false hfull
  obtain ⟨i, hi⟩ := List.mem_iff_getElem?.mp hp
  have hdvd : 8 ∣ p.used := by
    refine ((h.filled i p hi).1.1.dvd ?_).1
    intro q hq
    obtain ⟨g, hg, -, rfl⟩ := mem_piecesIn.mp hq
    exact (h.granted g hg).dvd
  unfold roundup8 at hlt
  omega

end PoolRun.Sound

/-- **The pool allocator is sound.** After any sequence of calls the regions that were handed out and not rolled back do
    not overlap, are aligned, are as large as was asked for and lie in the data areas of their pools. A rollback takes
    back the bytes of the regions that were handed out since the last snapshot and no others. A request fails only if
    it is larger than a pool or no pool has room for it, and the error is shown until the next snapshot. -/
theorem mpool_sound (L : Layout) (ops : List PoolOp) :
    ((PoolRun.run ops).live.Pairwise fun g g' => (L.bytes g.region).Apart (L.bytes g'.region)) ∧
    (∀ g ∈ (PoolRun.run ops).live, 8 ∣ (L.bytes g.region).start ∧ g.asked ≤ (L.bytes g.region).size ∧
      g.region.pool < (PoolRun.run ops).mpools.pools.length ∧
      (L.data g.region.pool).start ≤ (L.bytes g.region).start ∧ (L.bytes g.region).stop ≤ (L.data g.region.pool).stop) ∧
    (∃ since, (PoolRun.run ops).live = since ++ (PoolRun.run ops).mark ∧
      (PoolRun.run (ops ++ [.rollback])).live = (PoolRun.run ops).mark ∧
      ∀ i x, (PoolRun.run (ops ++ [.rollback])).mpools.InUse i x ↔
        (PoolRun.run ops).mpools.InUse i x ∧ ¬∃ g ∈ since, g.region.pool = i ∧ g.region.piece.Has x) ∧
    (∀ sz : Fin (2 ^ 63), ((PoolRun.run ops).mpools.mpoolAlloc sz).1 = none →
      defaultCap < sz ∨ ∀ p ∈ (PoolRun.run ops).mpools.pools, defaultCap < p.used + sz) ∧
    ((PoolRun.run ops).failed = true → (PoolRun.run ops).mpools.mpoolGetError ≠ .none) := by
  have hsound := PoolRun.Sound.run ops
  have hback : PoolRun.run (ops ++ [.rollback]) = (PoolRun.run ops).step .rollback := by
    rw [PoolRun.run, List.foldl_append]
    rfl
  refine ⟨?_, ?_, ?_, ?_, ?_⟩
  · refine hsound.apart.imp_of_mem fun {g g'} hg hg' hapart => ?_
    have hstop : g.region.offset + g.region.size ≤ defaultCap := (hsound.stop_le hg).2
    have hstop' : g'.region.offset + g'.region.size ≤ defaultCap := (hsound.stop_le hg').2
    have hsize : mpoolHeader + defaultCap = mmapSize := rfl
    show L.base g.region.pool + mpoolHeader + g.region.offset + g.region.size ≤
        L.base g'.region.pool + mpoolHeader + g'.region.offset ∨
      L.base g'.region.pool + mpoolHeader + g'.region.offset + g'.region.size ≤
        L.base g.region.pool + mpoolHeader + g.region.offset
    by_cases hsame : g.region.pool = g'.region.pool
    · have happ : g.region.offset + g.region.size ≤ g'.region.offset ∨
        g'.region.offset + g'.region.size ≤ g.region.offset := hapart hsame
      rw [hsame]
      omega
    · have hbase := L.apart _ _ hsame
      omega
  · intro g hg
    obtain ⟨hdvd, hstop⟩ := hsound.stop_le hg
    obtain ⟨hpool, hasked, -⟩ := hsound.granted g hg
    have hpage := L.page g.region.pool
    have hstop : g.region.offset + g.region.size ≤ defaultCap := hstop
    refine ⟨?_, hasked, hpool, Nat.le_add_right _ _, ?_⟩
    · show 8 ∣ L.base g.region.pool + mpoolHeader + g.region.offset
      unfold mpoolHeader
      omega
    · show L.base g.region.pool + mpoolHeader + g.region.offset + g.region.size ≤
        L.base g.region.pool + mpoolHeader + defaultCap
      omega
  · obtain ⟨since, hsince⟩ := hsound.since
    refine ⟨since, hsince.symm, by rw [hback]; rfl, fun i x => ?_⟩
    rw [hback]
    exact hsound.rollback_inUse hsince.symm i x
  · intro sz hnone
    exact hsound.alloc_none hnone
  · intro hfailed hnone
    exact Mpools.mpoolGetError_eq_none.mp hnone (hsound.flagged hfailed)

/-- Pools at consecutive addresses. -/
def Layout.row : Layout where
  base i := i * mmapSize
  page i := ⟨i * 64, by unfold mmapSize; omega⟩
  apart i j hne := by
    unfold mmapSize
    omega

/-- A request that is larger than a pool. -/
def largeRequest : Fin (2 ^ 63) := ⟨262105, by decide⟩

/-- It fails, and the error outlives new pools and a rollback. -/
theorem mpool_sound_large :
    ((PoolRun.run []).mpools.mpoolAlloc largeRequest).1 = none ∧
    (defaultCap < largeRequest ∨ ∀ p ∈ (PoolRun.run []).mpools.pools, defaultCap < p.used + largeRequest) ∧
    (PoolRun.run [.alloc largeRequest, .expand, .rollback]).failed = true ∧
    (PoolRun.run [.alloc largeRequest, .expand, .rollback]).mpools.mpoolGetError ≠ .none := by
  have hnone : ((PoolRun.run []).mpools.mpoolAlloc largeRequest).1 = none := by decide +kernel
  have hfailed : (PoolRun.run [.alloc largeRequest, .expand, .rollback]).failed = true := by decide +kernel
  obtain ⟨-, -, -, hcause, -⟩ := mpool_sound .row []
  obtain ⟨-, -, -, -, herror⟩ := mpool_sound .row [.alloc largeRequest, .expand, .rollback]
  exact ⟨hnone, hcause largeRequest hnone, hfailed, herror hfailed⟩

end Bmd
