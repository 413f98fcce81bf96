import Mathlib.Data.List.Basic

/-!
# `Lib.Framing` — streams of bodies with length headers

A sender puts in front of every body a header that tells its length. `stream` is what goes over the wire. Headers
have one length and are decodable on a set of lengths, so a stream can be cut into frames in one way only: what has
been cut off is a list of the frames sent, and the rest that holds no whole frame is the beginning of the next one.
-/

namespace Bmd.Lib.Framing

variable {α : Type} {hdr : Nat → List α} {n : Nat} {ok : Nat → Prop} {b c x y p : List α} {bs fs : List (List α)}

/-- A body with its header. -/
def frame (hdr : Nat → List α) (b : List α) : List α := hdr b.length ++ b

/-- Frames one after the other. -/
def stream (hdr : Nat → List α) (bs : List (List α)) : List α := (bs.map (frame hdr)).flatten

/-- All headers have the positive length `n`, and a header tells the length of a body if that is in `ok`. -/
structure Coded (hdr : Nat → List α) (n : Nat) (ok : Nat → Prop) : Prop where
  pos : 0 < n
  length : ∀ k, (hdr k).length = n
  inj : ∀ k m, ok k → ok m → hdr k = hdr m → k = m

/-- No whole frame is at the beginning of `p`. -/
def Incomplete (hdr : Nat → List α) (ok : Nat → Prop) (p : List α) : Prop := ∀ b, ok b.length → ¬frame hdr b <+: p

@[simp] theorem stream_nil : stream hdr [] = [] := rfl

@[simp] theorem stream_cons : stream hdr (b :: bs) = frame hdr b ++ stream hdr bs := rfl

theorem stream_append : stream hdr (bs ++ fs) = stream hdr bs ++ stream hdr fs := by
  rw [stream, List.map_append, List.flatten_append]
  rfl

theorem stream_singleton : stream hdr [b] = frame hdr b := by
  rw [stream_cons, stream_nil, List.append_nil]

/-- **Frames are a prefix code.** -/
theorem Coded.frame_append_inj (C : Coded hdr n ok) (hb : ok b.length) (hc : ok c.length)
    (h : frame hdr b ++ x = frame hdr c ++ y) : b = c ∧ x = y := by
  simp only [frame, List.append_assoc] at h
  obtain ⟨hhdr, hrest⟩ := List.append_inj h ((C.length _).trans (C.length _).symm)
  exact List.append_inj hrest (C.inj _ _ hb hc hhdr)

/-- The header is not complete. -/
theorem Coded.incomplete_header (C : Coded hdr n ok) (h : p.length < n) : Incomplete hdr ok p := by
  intro b _ hb
  have hlen := hb.length_le
  rw [frame, List.length_append, C.length] at hlen
  omega

/-- The header is complete and the body is not, or there is no such body. -/
theorem Coded.incomplete_body {all : Nat → Prop} {k : Nat} (C : Coded hdr n all) (hall : ∀ m, ok m → all m)
    (hk : all k) (h : ok k → x.length < k) : Incomplete hdr ok (hdr k ++ x) := by
  rintro b hb ⟨z, hz⟩
  rw [frame, List.append_assoc] at hz
  obtain ⟨hhdr, hrest⟩ := List.append_inj hz ((C.length _).trans (C.length _).symm)
  obtain rfl := C.inj _ _ (hall _ hb) hk hhdr
  have hlen := h hb
  rw [← hrest, List.length_append] at hlen
  omega

/-- What was cut off a stream of frames, up to a rest without a whole frame, are the frames sent. -/
theorem Coded.cut (C : Coded hdr n ok) (hbs : ∀ b ∈ bs, ok b.length) (hfs : ∀ c ∈ fs, ok c.length)
    (hp : Incomplete hdr ok p) (h : stream hdr bs ++ p <+: stream hdr fs) :
    ∃ rest, fs = bs ++ rest ∧ (p = [] ∨ ∃ c rest', rest = c :: rest' ∧ p <+: frame hdr c ∧ p ≠ frame hdr c) := by
  induction bs generalizing fs with
  | nil =>
    refine ⟨fs, rfl, ?_⟩
    cases fs with
    | nil => exact .inl (List.prefix_nil.mp h)
    | cons c rest' =>
      refine .inr ⟨c, rest', rfl, ?_, ?_⟩
      · rcases List.prefix_or_prefix_of_prefix h ⟨_, rfl⟩ with hpc | hcp
        · exact hpc
        · exact (hp c (hfs c List.mem_cons_self) hcp).elim
      · rintro rfl
        exact hp c (hfs c List.mem_cons_self) (List.prefix_refl _)
  | cons b bs ih =>
    obtain ⟨z, hz⟩ := h
    rw [stream_cons, List.append_assoc, List.append_assoc] at hz
    cases fs with
    | nil =>
      have hlen := congrArg List.length hz
      simp only [frame, stream_nil, List.length_append, List.length_nil, C.length] at hlen
      have hpos := C.pos
      omega
    | cons c fs =>
      rw [stream_cons] at hz
      obtain ⟨rfl, htail⟩ := C.frame_append_inj (hbs b List.mem_cons_self) (hfs c List.mem_cons_self) hz
      obtain ⟨rest, rfl, hrest⟩ := ih (fun x hx => hbs x (List.mem_cons_of_mem _ hx))
        (fun x hx => hfs x (List.mem_cons_of_mem _ hx)) ⟨z, (List.append_assoc ..).trans htail⟩
      exact ⟨rest, rfl, hrest⟩

end Bmd.Lib.Framing
