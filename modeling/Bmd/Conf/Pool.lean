/-!
# `Conf.Pool` — the memory pools of the parser (`parser.c`, `mpool_*`)

The parser runs in a child process and leaves what it built in memory that is shared with its parent: a list of pools
of one size, each filled from its beginning. Addresses in a pool are offsets from its data area.
-/

namespace Bmd

/-- `enum mpool_error`. -/
inductive MpoolError where
  | none | alloc | fatal
  deriving DecidableEq, Repr

/-- `e < m->error_number ? m->error_number : e`. -/
def MpoolError.worse : MpoolError → MpoolError → MpoolError
  | .none, e => e
  | .alloc, .fatal => .fatal
  | e, _ => e

/-- `struct mpool`. -/
structure Mpool where
  used : Nat
  lastUsed : Nat
  errorNumber : MpoolError
  deriving DecidableEq, Repr

/-- The list `mpools`. `cap` is the size of a data area, `DEFAULT_MMAP_SIZE - sizeof(struct mpool)`; with `none` it has
    no limit. -/
structure Mpools where
  cap : Option Nat
  pools : List Mpool
  deriving DecidableEq, Repr

/-- A piece of a pool. -/
structure Region where
  pool : Nat
  offset : Nat
  size : Nat
  deriving DecidableEq, Repr

/-- `DEFAULT_MMAP_SIZE - sizeof(struct mpool)`. -/
def defaultCap : Nat := 4096 * 64 - 40

/-- `roundup2(sz, 8)`. -/
def roundup8 (sz : Nat) : Nat := (sz + 7) / 8 * 8

namespace Mpools

/-- A pool as `mpool_expand` makes it. -/
def fresh : Mpool := { used := 0, lastUsed := 0, errorNumber := .none }

/-- `mpool_expand`; `mmap` is assumed to succeed. -/
def mpoolExpand (m : Mpools) : Mpools := { m with pools := m.pools ++ [fresh] }

/-- `mpool_init`. -/
def mpoolInit (cap : Option Nat) : Mpools := { cap := cap, pools := [fresh] }

/-- `mpool_snapshot`. -/
def mpoolSnapshot (m : Mpools) : Mpools :=
  { m with pools := m.pools.map fun p => { p with lastUsed := p.used, errorNumber := .none } }

/-- `mpool_rollback`. -/
def mpoolRollback (m : Mpools) : Mpools := { m with pools := m.pools.map fun p => { p with used := p.lastUsed } }

/-- `mpool_get_error`. -/
def mpoolGetError (m : Mpools) : MpoolError := m.pools.foldl (fun e p => e.worse p.errorNumber) .none

/-- `STAILQ_FIRST(&mpools)->error_number = e`. -/
def setError (e : MpoolError) (m : Mpools) : Mpools :=
  match m.pools with
  | [] => m
  | p :: rest => { m with pools := { p with errorNumber := e } :: rest }

/-- There is room for `sz` bytes. -/
def fits (cap : Option Nat) (sz : Nat) (p : Mpool) : Bool :=
  match cap with
  | none => true
  | some cap => p.used + sz ≤ cap

/-- The first pool with room for `sz` bytes, its index counted from `i`, and the list with the bytes taken. -/
def take (cap : Option Nat) (sz i : Nat) : List Mpool → Option (Region × List Mpool)
  | [] => none
  | p :: rest =>
    if fits cap sz p then some ({ pool := i, offset := p.used, size := sz }, { p with used := p.used + sz } :: rest)
    else (take cap sz (i + 1) rest).map fun r => (r.1, p :: r.2)

/-- `mpool_alloc`. -/
def mpoolAlloc (sz : Nat) (m : Mpools) : Option Region × Mpools :=
  let sz := roundup8 sz
  if m.cap.any (· < sz) then (none, m.setError .fatal)
  else
    match take m.cap sz 0 m.pools with
    | none => (none, m.setError .alloc)
    | some (r, pools) => (some r, { m with pools := pools })

end Mpools

end Bmd
