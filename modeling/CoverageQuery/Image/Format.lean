import CoverageQuery.Image.Field

/-!
# Image formats

The format of an image file is told from its first bytes, whatever it is announced as. Every format has
signatures of its own; no signature is the beginning of another.
-/
namespace CoverageQuery.Image

inductive Format where
  | png
  | jpeg
  | gif
  | webP
  | tiff
  | dds
  | bmp
  | ico
  | hdr
  | pnm
  | farbfeld
  | avif
  | openExr
  | qoi
  deriving DecidableEq, Repr

namespace Format

def name : Format → String
  | png => "Png"
  | jpeg => "Jpeg"
  | gif => "Gif"
  | webP => "WebP"
  | tiff => "Tiff"
  | dds => "Dds"
  | bmp => "Bmp"
  | ico => "Ico"
  | hdr => "Hdr"
  | pnm => "Pnm"
  | farbfeld => "Farbfeld"
  | avif => "Avif"
  | openExr => "OpenExr"
  | qoi => "Qoi"

def pngSignature : Bytes := [0x89, 0x50, 0x4E, 0x47, 0x0D, 0x0A, 0x1A, 0x0A]

def signatures : List (Bytes × Format) :=
  [(pngSignature, png),
   ([0xFF, 0xD8, 0xFF], jpeg),
   (word "GIF89a", gif),
   (word "GIF87a", gif),
   (word "RIFF", webP),
   ([0x4D, 0x4D, 0x00, 0x2A], tiff),
   ([0x49, 0x49, 0x2A, 0x00], tiff),
   (word "DDS ", dds),
   (word "BM", bmp),
   ([0x00, 0x00, 0x01, 0x00], ico),
   (word "#?RADIANCE", hdr),
   (word "P1", pnm),
   (word "P2", pnm),
   (word "P3", pnm),
   (word "P4", pnm),
   (word "P5", pnm),
   (word "P6", pnm),
   (word "P7", pnm),
   (word "farbfeld", farbfeld),
   ([0x00, 0x00, 0x00, 0x20] ++ word "ftypavif", avif),
   ([0x76, 0x2F, 0x31, 0x01], openExr),
   (word "qoif", qoi)]

def guess? (bytes : Bytes) : Option Format :=
  (signatures.find? fun signature => signature.1.isPrefixOf bytes).map Prod.snd

end Format
end CoverageQuery.Image
