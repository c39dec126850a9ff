import Mathlib.Data.String.Basic

/-!
# What a pile of bytes is

The media type and the size of an upload are read off the bytes, never off what the client calls
them.
-/

namespace Horsie.Artifacts

abbrev Bytes := List UInt8

/-- A media type that is stored. -/
inductive Sniffed where
  | png
  | jpeg
  | gif
  | webp
  | pdf
  deriving DecidableEq

def Sniffed.mediaType : Sniffed → String
  | png => "image/png"
  | jpeg => "image/jpeg"
  | gif => "image/gif"
  | webp => "image/webp"
  | pdf => "application/pdf"

def Sniffed.kind : Sniffed → String
  | png | jpeg | gif | webp => "image"
  | pdf => "document"

def Sniffed.isImage (s : Sniffed) : Bool := s.kind = "image"

/-- What the bytes are, or none if they are nothing that is stored. -/
def sniff (bytes : Bytes) : Option Sniffed :=
  if [0x89, 0x50, 0x4E, 0x47, 0x0D, 0x0A, 0x1A, 0x0A].isPrefixOf bytes then some .png
  else if [0xFF, 0xD8, 0xFF].isPrefixOf bytes then some .jpeg
  else if [0x47, 0x49, 0x46, 0x38, 0x37, 0x61].isPrefixOf bytes ||
      [0x47, 0x49, 0x46, 0x38, 0x39, 0x61].isPrefixOf bytes then some .gif
  else if 12 ≤ bytes.length && [0x52, 0x49, 0x46, 0x46].isPrefixOf bytes &&
      (bytes.drop 8).take 4 == [0x57, 0x45, 0x42, 0x50] then some .webp
  else if [0x25, 0x50, 0x44, 0x46, 0x2D].isPrefixOf bytes then some .pdf
  else none

/-! ## Dimensions -/

def byte (b : Bytes) (i : ℕ) : ℕ := (b[i]?.getD 0).toNat

def be16 (b : Bytes) (i : ℕ) : ℕ := byte b i * 256 + byte b (i + 1)

def be32 (b : Bytes) (i : ℕ) : ℕ := be16 b i * 65536 + be16 b (i + 2)

def le16 (b : Bytes) (i : ℕ) : ℕ := byte b i + byte b (i + 1) * 256

def le24 (b : Bytes) (i : ℕ) : ℕ := le16 b i + byte b (i + 2) * 65536

def png (b : Bytes) : Option (ℕ × ℕ) :=
  if b.length < 24 || (b.drop 12).take 4 != [0x49, 0x48, 0x44, 0x52] then none
  else some (be32 b 16, be32 b 20)

/-- The walk over the marker segments, from one index. -/
def jpegFrom (b : Bytes) (i : ℕ) : Option (ℕ × ℕ) :=
  if i + 9 < b.length then
    if byte b i ≠ 0xFF then none
    else
      let marker := byte b (i + 1)
      -- markers that stand alone have no length
      if (0xD0 ≤ marker ∧ marker ≤ 0xD9) ∨ marker = 0x01 then jpegFrom b (i + 2)
      else if (0xC0 ≤ marker ∧ marker ≤ 0xCF) ∧ marker ≠ 0xC4 ∧ marker ≠ 0xCC then
        some (be16 b (i + 7), be16 b (i + 5))
      else if be16 b (i + 2) < 2 then none
      else jpegFrom b (i + 2 + be16 b (i + 2))
  else none
termination_by b.length - i

def jpeg (b : Bytes) : Option (ℕ × ℕ) := jpegFrom b 2

def gif (b : Bytes) : Option (ℕ × ℕ) :=
  if b.length < 10 then none else some (le16 b 6, le16 b 8)

def webp (b : Bytes) : Option (ℕ × ℕ) :=
  if b.length < 16 then none
  else
    let form := (b.drop 12).take 4
    if form = [0x56, 0x50, 0x38, 0x20] then
      if b.length < 30 then none else some (le16 b 26 % 0x4000, le16 b 28 % 0x4000)
    else if form = [0x56, 0x50, 0x38, 0x4C] then
      if b.length < 25 then none
      else
        let bits := le16 b 21 + le16 b 23 * 65536
        some (bits % 0x4000 + 1, bits / 0x4000 % 0x4000 + 1)
    else if form = [0x56, 0x50, 0x38, 0x58] then
      if b.length < 30 then none else some (le24 b 24 + 1, le24 b 27 + 1)
    else none

/-- The size of an image in pixels, as its header has it. -/
def dimensions (kind : Sniffed) (b : Bytes) : Option (ℕ × ℕ) :=
  match kind with
  | .png => png b
  | .jpeg => jpeg b
  | .gif => gif b
  | .webp => webp b
  | .pdf => none

end Horsie.Artifacts
