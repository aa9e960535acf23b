import Mathlib.Data.List.Basic

/-!
# Cutting a stream into frames

A `Framer` looks for one frame at the front of a list of symbols: it gives the frame and what
follows it, or nothing, where the frame is not complete or can never be. The two laws say that a
frame takes at least one symbol and that what arrives later does not change a frame that is
complete. `frames` repeats it as long as it gives something.

`frames_append` is the law a buffered reader rests on: to cut a stream that has grown it is enough
to cut what was left over together with what is new. `frames_flatten` is the law of the writer: a
concatenation of encodings, each of which is one frame, is cut into these frames.
-/

/-- A reader of one frame at the front of a stream. -/
structure Framer (α β : Type*) where
  /-- The first frame and what follows it. -/
  next : List α → Option (β × List α)
  /-- A frame takes something from the stream. -/
  shorter : ∀ {bs rest : List α} {frame : β}, next bs = some (frame, rest) →
    rest.length < bs.length
  /-- A complete frame stays what it is when the stream grows. -/
  stable : ∀ {bs rest : List α} {frame : β} (more : List α), next bs = some (frame, rest) →
    next (bs ++ more) = some (frame, rest ++ more)

namespace Framer

variable {α β : Type*} (F : Framer α β)

/-- All frames at the front of a stream, and what is left over. -/
def frames (bs : List α) : List β × List α :=
  match h : F.next bs with
  | none => ([], bs)
  | some (frame, rest) =>
    have : rest.length < bs.length := F.shorter h
    (frame :: (frames rest).1, (frames rest).2)
termination_by bs.length

theorem frames_of_none {bs : List α} (h : F.next bs = none) : F.frames bs = ([], bs) := by
  rw [frames]
  split
  · rfl
  · next heq => simp [h] at heq

theorem frames_of_some {bs rest : List α} {frame : β} (h : F.next bs = some (frame, rest)) :
    F.frames bs = (frame :: (F.frames rest).1, (F.frames rest).2) := by
  rw [frames]
  split
  · next heq => simp [h] at heq
  · next frame' rest' heq =>
    obtain ⟨rfl, rfl⟩ : frame = frame' ∧ rest = rest' := by simpa [h] using heq
    rfl

/-- The empty stream holds no frame. -/
theorem next_nil : F.next [] = none := by
  rcases h : F.next [] with - | ⟨frame, rest⟩
  · rfl
  · exact absurd (F.shorter h) (Nat.not_lt_zero _)

theorem frames_nil : F.frames [] = ([], []) := F.frames_of_none F.next_nil

/-- **A stream may be cut as it grows.** The frames of `bs ++ more` are those of `bs`, and then
those of what was left over followed by `more`. -/
theorem frames_append (bs more : List α) :
    F.frames (bs ++ more) =
      ((F.frames bs).1 ++ (F.frames ((F.frames bs).2 ++ more)).1,
        (F.frames ((F.frames bs).2 ++ more)).2) := by
  induction hlen : bs.length using Nat.strongRecOn generalizing bs with
  | ind n ih =>
    rcases h : F.next bs with - | ⟨frame, rest⟩
    · rw [F.frames_of_none h]
      rfl
    · have hrest := ih rest.length (hlen ▸ F.shorter h) rest rfl
      rw [F.frames_of_some h, F.frames_of_some (F.stable more h), hrest]
      rfl

/-- The front of a stream holds the first of its frames. -/
theorem frames_prefix {bs cs : List α} (h : bs <+: cs) : (F.frames bs).1 <+: (F.frames cs).1 := by
  obtain ⟨more, rfl⟩ := h
  rw [F.frames_append]
  exact List.prefix_append _ _

/-- **A writer of frames is read back.** If the encoding of every item is one frame, with nothing
left over, a concatenation of encodings is cut into the frames of the items. -/
theorem frames_flatten {ι : Type*} (encode : ι → List α) (frame : ι → β) (items : List ι)
    (h : ∀ item ∈ items, F.next (encode item) = some (frame item, [])) :
    F.frames (items.map encode).flatten = (items.map frame, []) := by
  induction items with
  | nil => exact F.frames_nil
  | cons item items ih =>
    have hitem := F.stable (items.map encode).flatten (h item (List.mem_cons_self ..))
    have hrest := ih fun i hi ↦ h i (List.mem_cons_of_mem _ hi)
    rw [List.map_cons, List.flatten_cons, F.frames_of_some hitem, List.nil_append, hrest]
    rfl

end Framer
