import CoverageQuery.Image.Bitmap
import CoverageQuery.Image.Jpeg
import CoverageQuery.Image.OpenExr
import CoverageQuery.Image.PlainHeader
import CoverageQuery.Image.TextHeader
import CoverageQuery.Image.Tiff
import CoverageQuery.Image.WebP.Container

/-!
# Sizes of images

The size of an image is found from its header; only of WebP files the pixels are decoded as well. Formats
whose pictures are not read have no size.
-/
namespace CoverageQuery.Image

/-- The size of an image of a known format, unless it is corrupt. -/
def size? (format : Format) (bytes : Bytes) : Option Size :=
  match format with
  | .png => Png.size? bytes
  | .jpeg => Jpeg.size? bytes
  | .gif => gifSize? bytes
  | .tiff => Tiff.size? bytes
  | .dds => Dds.size? bytes
  | .bmp => Bitmap.size? bytes
  | .ico => Bitmap.iconSize? bytes
  | .hdr => Radiance.size? bytes
  | .pnm => Anymap.size? bytes
  | .farbfeld => farbfeldSize? bytes
  | .qoi => qoiSize? bytes
  | .webP => WebP.size? bytes
  | .openExr => OpenExr.size? bytes
  | .avif => none

end CoverageQuery.Image
