import Optiflow.Model.Uuid

/-!
# Renditions and the master playlist

The bitrate ladder of the video worker, and the manifest that names its variants.
-/

namespace Optiflow

/-- A number in decimal (`%d`). -/
def decimal (n : ℤ) : GoString := lit (toString n)

/-- The value of a decimal digit. -/
def digitValue (c : UInt8) : Option ℕ :=
  if 48 ≤ c.toNat ∧ c.toNat ≤ 57 then some (c.toNat - 48) else none

/-- The number that a string of digits stands for. -/
def digits (s : GoString) : Option ℕ :=
  if s = [] then none
  else s.foldl (fun n c => n.bind fun n => (digitValue c).map fun d => 10 * n + d) (some 0)

/-- `strconv.Atoi`: a sign or none, and digits; the number fits an `int`. -/
def atoi (s : GoString) : Option ℤ :=
  let n : Option ℤ :=
    if s.head? = some 45 then (digits s.tail).map fun n => -n
    else if s.head? = some 43 then (digits s.tail).map fun n => n
    else (digits s).map fun n => n
  n.filter fun n => -2 ^ 63 ≤ n ∧ n < 2 ^ 63

/-- One entry of the ladder. -/
structure Rendition where
  name : GoString
  height : ℤ
  bitrate : GoString
deriving DecidableEq

def renditionLadder : List Rendition :=
  [⟨lit "360p", 360, lit "800k"⟩, ⟨lit "720p", 720, lit "2800k"⟩, ⟨lit "1080p", 1080, lit "5000k"⟩]

/-- The entries that do not exceed the source, or one at the source's own height. -/
def selectRenditions (srcHeight : ℤ) : List Rendition :=
  let included := renditionLadder.filter fun r => r.height ≤ srcHeight
  if included.length = 0 then [⟨decimal srcHeight ++ lit "p", srcHeight, lit "800k"⟩] else included

/-- The width for a height in the source's aspect ratio, made even.  The quotient is exact; the source
computes it in float64. -/
def evenWidth (height srcWidth srcHeight : ℤ) : ℤ :=
  let w := (height * srcWidth).tdiv srcHeight
  if w.tmod 2 ≠ 0 then w + 1 else w

/-- `strings.TrimSuffix`. -/
def trimSuffix (s suffix : GoString) : GoString :=
  if suffix.isSuffixOf s then s.take (s.length - suffix.length) else s

/-- The `BANDWIDTH` of a bitrate; bitrates are ASCII.  A text that is no number gives 0. -/
def bitrateToBandwidth (bitrate : GoString) : ℤ :=
  match atoi (trimSuffix (bitrate.map UUID.lower) (lit "k")) with
  | none => 0
  | some n => (n * 1000).bmod (2 ^ 64)

def buildMasterPlaylist (renditions : List Rendition) (srcWidth srcHeight : ℤ) : Bytes :=
  lit "#EXTM3U\n#EXT-X-VERSION:3\n" ++ renditions.flatMap fun r =>
    lit "#EXT-X-STREAM-INF:BANDWIDTH=" ++ decimal (bitrateToBandwidth r.bitrate) ++
      lit ",RESOLUTION=" ++ decimal (evenWidth r.height srcWidth srcHeight) ++ lit "x" ++
      decimal r.height ++ lit "\n" ++ r.name ++ lit ".m3u8\n"

/-- The filter that `transcodeRendition` passes to ffmpeg. -/
def scaleFilter (r : Rendition) : GoString := lit "scale=-2:" ++ decimal r.height

example : bitrateToBandwidth (lit "2800k") = 2800000 := by decide

end Optiflow
