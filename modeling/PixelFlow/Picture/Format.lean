import PixelFlow.Files
import PixelFlow.Picture.Bmp
import PixelFlow.Picture.Gif
import PixelFlow.Picture.Jpeg
import PixelFlow.Picture.Plain
import PixelFlow.Picture.Tiff
import PixelFlow.Picture.WebP
import PixelFlow.Text.Quoted

/-!
# Picture formats

The format of a picture file is known by its extension. Some formats are read, and more are
written.

* `Format.ofPath`: the format of a path, or why there is none.
* `Format.decode`: a picture from the bytes of a file.
* **`Format.refusal?`**, `Format.kept`: whether a picture can be written, and what is left of it.
* `Format.encode`: the bytes that are written.
-/

namespace PixelFlow.Picture

inductive Format
  | png
  | jpeg
  | gif
  | bmp
  | tiff
  | webp
  | tga
  | pnm
  | qoi
  | ico
  | avif
  | farbfeld
  | hdr
  | openExr
  | dds
deriving DecidableEq, Repr

namespace Format

def name : Format → String
  | png => "Png"
  | jpeg => "Jpeg"
  | gif => "Gif"
  | bmp => "Bmp"
  | tiff => "Tiff"
  | webp => "WebP"
  | tga => "Tga"
  | pnm => "Pnm"
  | qoi => "Qoi"
  | ico => "Ico"
  | avif => "Avif"
  | farbfeld => "Farbfeld"
  | hdr => "Hdr"
  | openExr => "OpenExr"
  | dds => "Dds"

/-- The format with an extension in lower case. -/
def ofExtension? : String → Option Format
  | "png" | "apng" => some png
  | "jpg" | "jpeg" | "jfif" => some jpeg
  | "gif" => some gif
  | "bmp" => some bmp
  | "tiff" | "tif" => some tiff
  | "webp" => some webp
  | "tga" => some tga
  | "pbm" | "pgm" | "ppm" | "pnm" | "pam" => some pnm
  | "qoi" => some qoi
  | "ico" => some ico
  | "avif" => some avif
  | "ff" => some farbfeld
  | "hdr" => some hdr
  | "exr" => some openExr
  | "dds" => some dds
  | _ => none

/-- The format of a path, or the reason why it has none. -/
def ofPath (path : String) : Except String Format :=
  match Path.extension? path with
  | none => .error "The image format could not be determined"
  | some e =>
    match ofExtension? (String.ofList (e.toList.map Char.toLower)) with
    | some f => .ok f
    | none =>
      .error ("The file extension \x60." ++ Text.quoted e ++
        "\x60 was not recognized as an image format")

def unsupported (f : Format) : String := s!"The image format \x60{f.name}\x60 is not supported"

/-- The picture in the bytes of a file, or the reason why there is none. -/
def decode (f : Format) (bytes : List UInt8) : Except Failure Picture :=
  match f with
  | png => Png.decode bytes
  | jpeg => (Jpeg.decode bytes).mapError .unreadable
  | gif => (Gif.decode bytes).mapError .unreadable
  | bmp => (Bmp.decode bytes).mapError .unreadable
  | tiff => (Tiff.decode bytes).mapError .unreadable
  | webp => (WebP.decode bytes).mapError .unreadable
  | f => .error (.unreadable f.unsupported)

/-! ## Writing -/

/-- Whether a format takes pictures of a color model, perhaps with its channels cut down to eight
bits. -/
def takes (f : Format) (m : ColorModel) : Bool :=
  match f with
  | gif | qoi => !m.gray && !m.wide
  | tiff => !(m.gray && m.alpha)
  | pnm => !m.wide || (m.gray && !m.alpha)
  | farbfeld => m = .rgba16
  | hdr | openExr | dds => false
  | _ => true

/-- Why a format does not take a color model. -/
def modelRefusal (f : Format) (m : ColorModel) : String :=
  match f with
  | dds => f.unsupported
  | pnm => "The parameter is malformed: Invalid color type for selected PAM color type"
  | f => s!"The encoder or decoder for {f.name} does not support the color type \x60{m.name}\x60"

/-- The greatest side of an icon. -/
def greatestIconSide : Nat := 256

/-- What is wrong with a side of an icon. -/
def iconSide? (what : String) (n : Nat) : Option String :=
  if 1 ≤ n ∧ n ≤ greatestIconSide then none
  else some (s!"The parameter is malformed: the image {what} must be \x601..={greatestIconSide}" ++
    s!"\x60, instead {what} {n} was provided")

/-- Why a picture cannot be written, if it cannot. -/
def refusal? (f : Format) (p : Picture) : Option String :=
  if !f.takes p.model then some (f.modelRefusal p.model)
  else if f = ico then iconSide? "width" p.raster.width <|> iconSide? "height" p.raster.height
  else none

/-- What a reader finds of a picture that was written; `none` if the format is not read or loses
more than opacity or some colors. -/
def kept (f : Format) (p : Picture) : Option Raster :=
  match f with
  | gif => some (Gif.kept p.raster)
  | bmp => some (if p.model.gray then p.raster.opaqueCopy else p.raster)
  | ico => if p.model = .rgba8 then some p.raster else none
  | jpeg | avif => none
  | _ => some p.raster

/-- The bytes that are written for a picture. Where pixels would have to be compressed in another
way they are written as a PNG file, which is known by its mark under any name. -/
def encode (f : Format) (p : Picture) : List UInt8 :=
  let r := (f.kept p).getD p.raster
  match f with
  | bmp => Bmp.encode r
  | tga => Tga.encode r
  | pnm => Pam.encode r
  | qoi => Qoi.encode r
  | tiff => Tiff.encode r
  | ico => Ico.encode r
  | _ => Png.encode r

end Format

/-- How the picture at a path is read. -/
abbrev Loader := FileStore → String → Except Failure Picture

/-- Read the picture at a path. -/
def load (files : FileStore) (path : String) : Except Failure Picture := do
  let bytes ← (files.read path).mapError .unreadable
  (← (Format.ofPath path).mapError .unreadable).decode bytes

end PixelFlow.Picture
