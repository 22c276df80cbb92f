import SourceMachine.Machine.Frame

/-!
# Stacks of pending work

A stack is a list of frames, the next one first, with its length kept beside it.
A stack can be cut at its nearest delimiter: the frames above it come off one by
one and go onto the piece in the opposite order, and the delimiter comes off.  A
piece is put on top of another stack in the same way.
-/

namespace SourceMachine

/-- A list of frames and its length. -/
structure Stack where
  frames : List Frame
  depth : Nat
  depth_eq : depth = frames.length

namespace Stack

/-- A stack of the given frames. -/
def ofFrames (frames : List Frame) : Stack :=
  ⟨frames, frames.length, rfl⟩

/-- The stack of a program that has just started. -/
def initial : Stack :=
  ofFrames [.halt]

@[ext] theorem ext {s t : Stack} (h : s.frames = t.frames) : s = t := by
  obtain ⟨frames, depth, rfl⟩ := s
  obtain ⟨_, _, rfl⟩ := t
  cases h
  rfl

@[simp] theorem frames_ofFrames (fs : List Frame) : (ofFrames fs).frames = fs := rfl

/-- Put a frame on top. -/
def push (s : Stack) (f : Frame) : Stack :=
  ⟨f :: s.frames, s.depth + 1, by simp [s.depth_eq]⟩

@[simp] theorem frames_push (s : Stack) (f : Frame) : (s.push f).frames = f :: s.frames := rfl

@[simp] theorem depth_push (s : Stack) (f : Frame) : (s.push f).depth = s.depth + 1 := rfl

/-- The top frame. -/
def top? (s : Stack) : Option Frame :=
  s.frames.head?

/-- The top frame, and the stack below it. -/
def pop? (s : Stack) : Option (Frame × Stack) :=
  match h : s.frames with
  | [] => none
  | f :: fs => some (f, ⟨fs, s.depth - 1, by simp [s.depth_eq, h]⟩)

@[simp] theorem pop?_push (s : Stack) (f : Frame) : (s.push f).pop? = some (f, s) := rfl

/-- Put frames on top, the last of them first: the first of them is on top then. -/
def pushBack (s : Stack) (frames : Array Frame) : Stack :=
  frames.foldr (fun f s => s.push f) s

@[simp] theorem frames_pushBack (s : Stack) (frames : Array Frame) :
    (s.pushBack frames).frames = frames.toList ++ s.frames := by
  rw [pushBack, ← Array.foldr_toList]
  induction frames.toList with
  | nil => rfl
  | cons f fs ih => exact congrArg (f :: ·) ih

/-- Put a copy of a piece on top, in its order. -/
def splice (s piece : Stack) : Stack :=
  s.pushBack piece.frames.toArray

@[simp] theorem frames_splice (s piece : Stack) :
    (s.splice piece).frames = piece.frames ++ s.frames :=
  frames_pushBack s _

/-- Take some frames off the top, and keep each of them behind those kept before. -/
def popMany (s : Stack) (kept : Array Frame) : Nat → Array Frame × Stack
  | 0 => (kept, s)
  | n + 1 =>
    match s.pop? with
    | none => s.popMany kept n
    | some (f, below) => below.popMany (kept.push f) n

/-- The stack without its top frame. -/
def dropTop (s : Stack) : Stack :=
  s.pop?.elim s (·.2)

/-- The frames above the nearest delimiter as a piece, and the stack below that
    delimiter.  There is none when no delimiter is on the stack. -/
def split? (s : Stack) : Option (Stack × Stack) := do
  let position ← s.frames.findIdx? Frame.isDelimiter
  let (kept, rest) := s.popMany #[] position
  return ((ofFrames []).pushBack kept, rest.dropTop)

end Stack

/-- Which part of the stack was captured. -/
inductive CaptureKind where
  /-- The whole stack; resuming puts it in place of the current one. -/
  | undelimited
  /-- The frames above a delimiter; resuming puts them on top of the current
      stack. -/
  | delimited
deriving DecidableEq, Repr

/-- How values show the kind of a captured stack. -/
def CaptureKind.text : CaptureKind → String
  | .undelimited => "undelimited"
  | .delimited => "delimited"

/-- A captured stack, with the scopes to go on in. -/
structure Captured where
  kind : CaptureKind
  env : Env
  stack : Stack

end SourceMachine
