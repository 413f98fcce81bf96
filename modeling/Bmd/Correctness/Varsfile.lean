import Bmd.Daemon.Exec

/-!
# `Correctness.Varsfile` — the copy of the UEFI variables

`copy_file_range` advances the offset that it is given a pointer to, and the loop of `copy_uefi_vars` advances it once
more. After each call as many bytes are passed over as have been copied.
-/

namespace Bmd

variable {src out out' : List UInt8} {len n : Nat}

/-- What is passed over is zero, as the gaps of the destination are, and the last call reaches the end. -/
def SkipsZeros (src : List UInt8) : List CopyResult → Nat → Prop
  | [], _ => False
  | .eintr :: results, len => SkipsZeros src results len
  | .error :: _, _ => False
  | .copied k :: results, len =>
    let n := min (k + 1) (src.length - len)
    if len + n + n < src.length then
      (src.drop (len + n)).take n = List.replicate n 0 ∧ SkipsZeros src results (len + n + n)
    else len + n = src.length

/-- A write behind the end of a file. -/
theorem pwrite_of_length_le {data : List UInt8} (h : out.length ≤ len) :
    pwrite out len data = out ++ List.replicate (len - out.length) 0 ++ data := by
  have hpad : (out ++ List.replicate (len - out.length) 0).length = len := by
    rw [List.length_append, List.length_replicate]
    omega
  have htake : (out ++ List.replicate (len - out.length) 0).take len = out ++ List.replicate (len - out.length) 0 :=
    List.take_of_length_le (Nat.le_of_eq hpad)
  rw [pwrite, htake, List.drop_eq_nil_of_le (by omega), List.append_nil]

theorem length_chunk (h : len + n ≤ src.length) : ((src.drop len).take n).length = n :=
  List.length_take_of_le (by rw [List.length_drop]; omega)

/-- A chunk and the gap behind it, against the source. -/
theorem append_chunk_eq_take_iff {pad : List UInt8} (hpad : pad.length = len) (hn : len + n + n ≤ src.length) :
    pad ++ (src.drop len).take n ++ List.replicate n 0 = src.take (len + n + n) ↔
      pad = src.take len ∧ (src.drop (len + n)).take n = List.replicate n 0 := by
  have hlen : (src.take len).length = len := List.length_take_of_le (by omega)
  rw [List.take_add, List.take_add]
  constructor
  · intro h
    have hinit : (pad ++ (src.drop len).take n).length = (src.take len ++ (src.drop len).take n).length := by
      rw [List.length_append, List.length_append, hpad, hlen]
    obtain ⟨hfront, hgap⟩ := List.append_inj h hinit
    exact ⟨(List.append_inj hfront (hpad.trans hlen.symm)).1, hgap.symm⟩
  · rintro ⟨rfl, hgap⟩
    rw [hgap]

/-- The last chunk, against the source. -/
theorem append_chunk_eq_iff {pad : List UInt8} (hpad : pad.length = len) (hn : len + n ≤ src.length) :
    pad ++ (src.drop len).take n = src ↔ pad = src.take len ∧ len + n = src.length := by
  have hchunk := length_chunk hn
  constructor
  · intro h
    refine ⟨?_, ?_⟩
    · have hpref := congrArg (List.take len) h
      rwa [List.take_append_of_le_length (Nat.le_of_eq hpad.symm), List.take_of_length_le (Nat.le_of_eq hpad)] at hpref
    · rw [← congrArg List.length h, List.length_append, hpad, hchunk]
  · rintro ⟨rfl, hend⟩
    rw [← List.take_add, hend, List.take_length]

/-- What the loop leaves, from an offset on. The destination is followed with zeros up to the offset. -/
theorem copyLoop_eq_iff {results : List CopyResult} (hle : len ≤ src.length) (hout : out.length ≤ len)
    (h : copyLoop src results len out = some (some out')) :
    out' = src ↔ out ++ List.replicate (len - out.length) 0 = src.take len ∧ SkipsZeros src results len := by
  induction results generalizing len out with
  | nil => cases h
  | cons r results ih =>
    cases r with
    | eintr => exact ih hle hout h
    | error => cases h
    | copied k =>
      simp only [copyLoop, SkipsZeros] at h ⊢
      generalize hn : min (k + 1) (src.length - len) = n at h ⊢
      generalize hpad : out ++ List.replicate (len - out.length) 0 = pad at h ⊢
      have hpadlen : pad.length = len := by
        rw [← hpad, List.length_append, List.length_replicate]
        omega
      have hchunk := length_chunk (n := n) (by omega : len + n ≤ src.length)
      have hlen : (pad ++ (src.drop len).take n).length = len + n := by rw [List.length_append, hpadlen, hchunk]
      rw [pwrite_of_length_le hout, hpad] at h
      by_cases hmore : len + n + n < src.length
      · -- The next call begins behind a gap of `n` bytes.
        rw [if_pos (by omega : n > 0), if_pos hmore] at h
        have hrest := ih (Nat.le_of_lt hmore) (by omega) h
        rw [hlen, Nat.add_sub_cancel_left, append_chunk_eq_take_iff hpadlen (Nat.le_of_lt hmore)] at hrest
        rw [if_pos hmore, hrest, and_assoc]
      · rw [if_neg hmore, ite_self] at h
        obtain rfl := Option.some.inj (Option.some.inj h)
        rw [if_neg hmore]
        exact append_chunk_eq_iff hpadlen (by omega)

/-- **When the variables are copied faithfully.** Whatever the calls of `copy_file_range` return, a copy that ends with 0
    is the source exactly if all bytes that were passed over are zero and the last call reached the end; a copy in one
    call is such a one. -/
theorem varsfile_copied_iff (src : List UInt8) (results : List CopyResult) (out : List UInt8)
    (h : copyLoop src results 0 [] = some (some out)) : out = src ↔ SkipsZeros src results 0 := by
  rw [copyLoop_eq_iff (Nat.zero_le _) (Nat.le_of_eq rfl) h]
  exact and_iff_right rfl

/-- Three bytes in one call, after an interrupted one. -/
theorem varsfile_copied_whole : ∃ out, copyLoop [1, 2, 3] [.eintr, .copied 4] 0 [] = some (some out) ∧
    out = [1, 2, 3] := by
  have hskips : SkipsZeros [1, 2, 3] [.eintr, .copied 4] 0 := rfl
  exact ⟨_, rfl, (varsfile_copied_iff _ _ _ rfl).mpr hskips⟩

/-- **A copy in two calls is not faithful.** The second byte is passed over, and reads as zero in the destination; with
    two bytes in the first call, the third one is missing. -/
theorem varsfile_corrupted :
    copyLoop [1, 2, 3] [.copied 0, .copied 0] 0 [] = some (some [1, 0, 3]) ∧
    copyLoop [1, 2, 3] [.copied 1] 0 [] = some (some [1, 2]) := ⟨rfl, rfl⟩

end Bmd
