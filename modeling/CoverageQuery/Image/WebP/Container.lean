import CoverageQuery.Image.WebP.Lossless
import CoverageQuery.Image.WebP.Lossy

/-!
# WebP files

The file is a sequence of named chunks. The first is a picture, or the header of an extended file: the
size of a canvas, followed by a picture or by the frames of an animation, among chunks that do not
matter here. The size of a file is that of its canvas, provided that every picture on it can be read.
-/
namespace CoverageQuery.Image.WebP

inductive Kind where
  | container
  | lossy
  | lossless
  | extended
  | animation
  | frame
  | alpha
  | metadata
  | unknown
  deriving DecidableEq, Repr

def kinds : List (String × Kind) :=
  [("RIFF", .container), ("WEBP", .container), ("VP8 ", .lossy), ("VP8L", .lossless),
   ("VP8X", .extended), ("ANIM", .animation), ("ANMF", .frame), ("ALPH", .alpha),
   ("ICCP", .metadata), ("EXIF", .metadata), ("XMP ", .metadata)]

structure Chunk where
  kind : Kind
  content : Bytes
  deriving DecidableEq, Repr

def kindOf (name : Bytes) : Kind :=
  ((kinds.find? fun entry => word entry.1 = name).map Prod.snd).getD .unknown

/-- The first chunk and what follows it. A content of odd length is followed by one more byte; the last
content may be cut short. -/
def chunk? (bytes : Bytes) : Option (Chunk × Bytes) := do
  let name ← field? bytes 0 4
  let length ← ByteOrder.little.number? bytes 4 4
  let padded := length + length % 2
  let content := (bytes.drop 8).take padded
  pure (⟨kindOf name, if length % 2 = 1 then content.dropLast else content⟩, bytes.drop (8 + padded))

theorem length_of_chunk? {bytes rest : Bytes} {c : Chunk} (h : chunk? bytes = some (c, rest)) :
    rest.length + 8 ≤ bytes.length := by
  simp only [chunk?, Option.bind_eq_bind, Option.bind_eq_some_iff, Option.pure_def,
    Option.some.injEq, Prod.mk.injEq] at h
  obtain ⟨name, _, length, hl, _, rfl⟩ := h
  simp only [ByteOrder.number?, Option.map_eq_some_iff] at hl
  obtain ⟨part, hp, _⟩ := hl
  have hpart := (length_of_field? hp).2 (by omega)
  simp only [List.length_drop]
  omega

def chunks? (bytes : Bytes) : Option (List Chunk) :=
  if bytes.length < 4 then some []
  else
    match _ : chunk? bytes with
    | none => none
    | some (c, rest) => do
      let others ← chunks? rest
      pure (c :: others)
termination_by bytes.length
decreasing_by
  have := length_of_chunk? ‹chunk? bytes = some (c, rest)›
  omega

/-- How many values of opacity a chunk gives, for a canvas of this size. They are packed like the
pixels of a picture without loss, or not at all. -/
def alphaCount? (canvas : Size) (content : Bytes) : Option Nat :=
  match content with
  | [] => none
  | flags :: rest =>
    let flags := flags.toNat
    if flags < 32 ∧ flags % 4 = 0 then some rest.length
    else if flags < 32 ∧ flags % 4 = 1 ∧ canvas.width < 65536 ∧ canvas.height < 65536
        ∧ Lossless.hasPicture rest canvas then
      some (canvas.width * canvas.height)
    else none

def isBlended (canvas : Size) (alpha picture : Chunk) : Bool :=
  match alphaCount? canvas alpha.content, Lossy.size? picture.content with
  | some count, some size => picture.kind = .lossy ∧ size.width * size.height ≤ count
  | _, _ => false

def isPicture (canvas : Size) (bytes : Bytes) : Bool :=
  match chunk? bytes with
  | none => false
  | some (c, rest) =>
    match c.kind with
    | .lossy => (Lossy.size? c.content).isSome
    | .lossless => (Lossless.size? c.content).isSome
    | .alpha => (chunk? rest).any fun next => isBlended canvas c next.1
    | _ => false

def isFrame (canvas : Size) (content : Bytes) : Bool :=
  let number? := ByteOrder.little.number? content
  match number? 0 3, number? 3 3, number? 6 3, number? 9 3, number? 15 1 with
  | some left, some top, some width, some height, some flags =>
    2 * left + width + 1 ≤ canvas.width && 2 * top + height + 1 ≤ canvas.height && flags < 4
      && isPicture ⟨width + 1, height + 1⟩ (content.drop 16)
  | _, _, _, _, _ => false

structure Contents where
  picture : Bool
  animation : Bool
  frame : Bool
  deriving DecidableEq, Repr

namespace Contents

def empty : Contents := ⟨false, false, false⟩

/-- Whether there is something to show. An animation needs a frame, whether or not there is a picture
too. -/
def isShown (c : Contents) : Bool := if c.animation then c.frame else c.picture

def extend? (canvas : Size) : Contents → List Chunk → Option Contents
  | seen, [] => some seen
  | seen, c :: rest =>
    match c.kind with
    | .container | .extended => none
    | .metadata | .unknown => extend? canvas seen rest
    | .animation =>
      if seen.animation ∨ 6 ≤ c.content.length then
        extend? canvas { seen with animation := true } rest
      else none
    | .frame =>
      if isFrame canvas c.content then extend? canvas { seen with frame := true } rest else none
    | .lossy =>
      if seen.picture ∨ (Lossy.size? c.content).isSome then
        extend? canvas { seen with picture := true } rest
      else none
    | .lossless =>
      if seen.picture ∨ (Lossless.size? c.content).isSome then
        extend? canvas { seen with picture := true } rest
      else none
    | .alpha =>
      if seen.picture then extend? canvas seen rest
      else
        match rest with
        | [] => none
        | next :: rest =>
          if isBlended canvas c next then extend? canvas { seen with picture := true } rest else none

end Contents

def canvas? (content : Bytes) : Option Size := do
  let flags ← ByteOrder.little.number? content 0 1
  let reserved ← ByteOrder.little.number? content 1 3
  let width ← ByteOrder.little.number? content 4 3
  let height ← ByteOrder.little.number? content 7 3
  guard (flags < 64 ∧ flags % 2 = 0 ∧ reserved = 0)
  guard ((width + 1) * (height + 1) < Nat.pow 2 32)
  pure ⟨width + 1, height + 1⟩

def size? (bytes : Bytes) : Option Size := do
  let mark ← field? bytes 8 4
  guard (mark = word "WEBP")
  let (first, rest) ← chunk? (bytes.drop 12)
  match first.kind with
  | .lossy => Lossy.size? first.content
  | .lossless => Lossless.size? first.content
  | .extended =>
    let canvas ← canvas? first.content
    let contents ← Contents.empty.extend? canvas (← chunks? rest)
    guard contents.isShown
    pure canvas
  | _ => none

end CoverageQuery.Image.WebP
