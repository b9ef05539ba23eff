/-
The stack of frames. Frames are counted from the bottom, which is frame 0. Names are looked up from
the top down, and try frames are passed over.
-/
import SlotVM.Stack.Frame
import SlotVM.Fault

namespace SlotVM

/-- The frames of a run, the top one first, and their number. -/
structure Stack where
  frames : List Frame
  depth : Nat
  depth_eq : depth = frames.length

namespace Stack

@[ext] theorem ext {a b : Stack} (h : a.frames = b.frames) : a = b := by
  obtain ⟨fa, da, ha⟩ := a
  obtain ⟨fb, db, hb⟩ := b
  cases h
  subst ha hb
  rfl

/-- The stack with the given frames, the top one first. -/
def ofFrames (frames : List Frame) : Stack := ⟨frames, frames.length, rfl⟩

/-- No frames. -/
def empty : Stack := ofFrames []

instance : Inhabited Stack := ⟨empty⟩

/-- Whether there is no frame. -/
def isEmpty (s : Stack) : Bool := s.frames.isEmpty

/-- Puts a frame on top; it becomes frame `s.depth`. -/
def push (s : Stack) (f : Frame) : Stack :=
  ⟨f :: s.frames, s.depth + 1, by simp [s.depth_eq]⟩

/-- The top frame and the stack below it. -/
def pop? (s : Stack) : Option (Frame × Stack) :=
  match h : s.frames with
  | [] => none
  | f :: rest => some (f, ⟨rest, s.depth - 1, by simp [s.depth_eq, h]⟩)

/-- The top frame. -/
def top? (s : Stack) : Option Frame := s.frames.head?

/-- The frame at a height. -/
def get? (s : Stack) (index : Nat) : Option Frame :=
  if index < s.depth then s.frames[s.depth - 1 - index]? else none

/-- The function frame at a height. -/
def callFrame (s : Stack) (index : Nat) : Except Cause CallFrame :=
  match (s.get? index).map Frame.kind with
  | some (.call call) => .ok call
  | _ => .error (.notFunctionFrame index)

/-! ## Names -/

/-- Changes the binding of a name in the topmost frame that has one. There is no result if no frame
does. -/
def rebind? (name : String) (ref : Nat) : List Frame → Option (List Frame)
  | [] => none
  | f :: rest =>
    if !f.isTry && f.scope.contains name then
      some ({ f with scope := f.scope.bind name ref } :: rest)
    else (rebind? name ref rest).map (f :: ·)

/-- Binds a name in the topmost frame that is not a try frame. There is no result if all are. -/
def bindInnermost? (name : String) (ref : Nat) : List Frame → Option (List Frame)
  | [] => none
  | f :: rest =>
    if f.isTry then (bindInnermost? name ref rest).map (f :: ·)
    else some ({ f with scope := f.scope.bind name ref } :: rest)

/-- Binds a name: where it is bound already, or else in the innermost scope. -/
def bind (s : Stack) (name : String) (ref : Nat) : Except Cause Stack :=
  match (rebind? name ref s.frames).or (bindInnermost? name ref s.frames) with
  | some frames => .ok (ofFrames frames)
  | none => .error (.noScope name)

/-- The slot that a name is bound to, in the topmost frame that binds it. -/
def resolve? (s : Stack) (name : String) : Option Nat :=
  (s.frames.filter (!·.isTry)).findSome? (·.scope.get? name)

/-! ## Heights -/

theorem depth_push (s : Stack) (f : Frame) : (s.push f).depth = s.depth + 1 := rfl

theorem frames_push (s : Stack) (f : Frame) : (s.push f).frames = f :: s.frames := rfl

theorem pop?_push (s : Stack) (f : Frame) : (s.push f).pop? = some (f, s) := by
  simp [push, pop?]

theorem eq_push_of_pop? {s t : Stack} {f : Frame} (h : s.pop? = some (f, t)) : s = t.push f := by
  unfold pop? at h
  split at h
  · cases h
  · rename_i g rest hg
    cases h
    exact Stack.ext hg

theorem pop?_eq_none_iff {s : Stack} : s.pop? = none ↔ s.frames = [] := by
  unfold pop?
  split <;> simp_all

end Stack

end SlotVM
