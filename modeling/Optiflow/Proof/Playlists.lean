import Mathlib.Algebra.Order.BigOperators.Group.List
import Mathlib.Algebra.Order.Ring.Nat
import Optiflow.Model.Workers

/-!
# Playlists

What a player reads from a master playlist (`variants`): the lines that are neither empty nor tags.  For
the playlist that the video worker builds these are the files that ffmpeg has written, one for each
rendition.  The playlist is short enough to be stored as it is.
-/

namespace Optiflow

open Workers

/-! ## Lines -/

/-- The variant playlists that a master playlist names. -/
def variants (body : Bytes) : List GoString :=
  (body.splitOn 10).filter fun line => line ≠ [] && line.head? ≠ some 35

section Lines

variable {line rest : Bytes}

/-- A tag or a comment names no playlist. -/
theorem variants_tag (h : 10 ∉ line) (htag : line.head? = some 35) :
    variants (line ++ 10 :: rest) = variants rest := by
  unfold variants
  rw [List.splitOn_append_cons_self_of_not_mem h, List.filter_cons_of_neg]
  simp [htag]

/-- Any other line does. -/
theorem variants_name (h : 10 ∉ line) (hne : line ≠ []) (htag : line.head? ≠ some 35) :
    variants (line ++ 10 :: rest) = line :: variants rest := by
  unfold variants
  rw [List.splitOn_append_cons_self_of_not_mem h, List.filter_cons_of_pos]
  simp [hne, htag]

end Lines

/-! ## Numbers -/

/-- A minus sign or a digit. -/
def numeral (c : UInt8) : Bool := c = 45 || (48 ≤ c && c ≤ 57)

theorem numeral_of_isDigit {c : Char} (h : c.isDigit = true) : numeral (UInt8.ofNat c.toNat) = true := by
  simp only [Char.isDigit, Bool.and_eq_true, decide_eq_true_eq] at h
  have hlow : 48 ≤ c.toNat := h.1
  have hhigh : c.toNat ≤ 57 := h.2
  simp only [numeral, Bool.or_eq_true, Bool.and_eq_true, decide_eq_true_eq, UInt8.le_iff_toNat_le,
    UInt8.toNat_ofNat']
  right
  constructor
  · show 48 ≤ c.toNat % 256
    omega
  · show c.toNat % 256 ≤ 57
    omega

/-- A negative number has a sign in front of its digits. -/
theorem decimal_negSucc (m : ℕ) : decimal (Int.negSucc m) = 45 :: lit (m + 1).repr := by
  show lit ("-" ++ (m + 1).repr) = _
  simp [lit]

theorem numeral_of_mem_decimal {n : ℤ} {c : UInt8} (h : c ∈ decimal n) : numeral c = true := by
  have digits : ∀ m : ℕ, c ∈ lit m.repr → numeral c = true := by
    intro m hm
    obtain ⟨x, hx, rfl⟩ := List.mem_map.1 hm
    rw [Nat.toList_repr] at hx
    exact numeral_of_isDigit (Nat.isDigit_of_mem_toDigits (by decide) (by decide) hx)
  cases n with
  | ofNat m => exact digits m h
  | negSucc m =>
    rw [decimal_negSucc] at h
    rcases List.mem_cons.1 h with rfl | h
    · rfl
    · exact digits _ h

theorem decimal_ne_nil (n : ℤ) : decimal n ≠ [] := by
  have digits : ∀ m : ℕ, lit m.repr ≠ [] := by
    intro m hm
    have hlen := congrArg List.length hm
    simp [lit, Nat.toList_repr] at hlen
  cases n with
  | ofNat m => exact digits m
  | negSucc m =>
    rw [decimal_negSucc]
    exact List.cons_ne_nil _ _

theorem length_decimal {n : ℤ} (k : ℕ) (hk : 0 < k) (h : n.natAbs < 10 ^ k) :
    (decimal n).length ≤ k + 1 := by
  have digits : ∀ m : ℕ, m < 10 ^ k → (lit m.repr).length ≤ k := by
    intro m hm
    rw [lit, List.length_map, Nat.toList_repr]
    exact (Nat.length_toDigits_le_iff (by decide) hk).2 hm
  cases n with
  | ofNat m => exact Nat.le_succ_of_le (digits m h)
  | negSucc m =>
    rw [decimal_negSucc, List.length_cons]
    exact Nat.succ_le_succ (digits (m + 1) h)

/-! ## The playlist of the worker -/

section Master

variable {r : Rendition} {rs : List Rendition} {srcWidth srcHeight : ℤ}

/-- The playlist that ffmpeg writes for a rendition. -/
def playlistName (r : Rendition) : GoString := r.name ++ lit ".m3u8"

/-- Every rendition is named after its height. -/
theorem name_of_mem_selectRenditions (h : r ∈ selectRenditions srcHeight) :
    r.name = decimal r.height ++ lit "p" := by
  unfold selectRenditions at h
  dsimp only at h
  split at h
  · obtain rfl := List.mem_singleton.1 h
    rfl
  · have hladder : ∀ r ∈ renditionLadder, r.name = decimal r.height ++ lit "p" := by decide
    exact hladder r (List.mem_filter.1 h).1

/-- The first character of a number. -/
theorem head?_decimal_append (n : ℤ) (rest : GoString) :
    ∃ c, (decimal n ++ rest).head? = some c ∧ numeral c = true := by
  cases hd : decimal n with
  | nil => exact absurd hd (decimal_ne_nil n)
  | cons c l => exact ⟨c, rfl, numeral_of_mem_decimal (hd ▸ List.mem_cons_self)⟩

/-- A name that a rendition begins is no tag, and not the name of the master playlist. -/
theorem head?_name_append (hr : r.name = decimal r.height ++ lit "p") (rest : GoString) :
    ∃ c, (r.name ++ rest).head? = some c ∧ numeral c = true := by
  rw [hr, List.append_assoc]
  exact head?_decimal_append _ _

theorem newline_notMem_decimal (n : ℤ) : 10 ∉ decimal n :=
  fun h => absurd (numeral_of_mem_decimal h) (by decide)

/-- The tag in front of a rendition. -/
def streamInf (srcWidth srcHeight : ℤ) (r : Rendition) : GoString :=
  lit "#EXT-X-STREAM-INF:BANDWIDTH=" ++ decimal (bitrateToBandwidth r.bitrate) ++
    lit ",RESOLUTION=" ++ decimal (evenWidth r.height srcWidth srcHeight) ++ lit "x" ++
    decimal r.height

/-- The playlist, line by line. -/
theorem buildMasterPlaylist_lines : buildMasterPlaylist rs srcWidth srcHeight =
    lit "#EXTM3U" ++ 10 :: (lit "#EXT-X-VERSION:3" ++ 10 :: rs.flatMap fun r =>
      streamInf srcWidth srcHeight r ++ 10 :: (playlistName r ++ [10])) := by
  have hheader : lit "#EXTM3U\n#EXT-X-VERSION:3\n" =
      lit "#EXTM3U" ++ 10 :: (lit "#EXT-X-VERSION:3" ++ [10]) := by decide
  have hnewline : lit "\n" = [10] := rfl
  have hext : lit ".m3u8\n" = lit ".m3u8" ++ [10] := rfl
  simp only [buildMasterPlaylist, streamInf, playlistName, hheader, hnewline, hext,
    List.append_assoc, List.cons_append, List.nil_append]

theorem newline_notMem_streamInf : 10 ∉ streamInf srcWidth srcHeight r := by
  have hbandwidth : (10 : UInt8) ∉ lit "#EXT-X-STREAM-INF:BANDWIDTH=" := by decide
  have hresolution : (10 : UInt8) ∉ lit ",RESOLUTION=" := by decide
  have hx : (10 : UInt8) ∉ lit "x" := by decide
  simp [streamInf, hbandwidth, hresolution, hx, newline_notMem_decimal]

theorem newline_notMem_playlistName (hr : r.name = decimal r.height ++ lit "p") :
    10 ∉ playlistName r := by
  have hp : (10 : UInt8) ∉ lit "p" := by decide
  have hext : (10 : UInt8) ∉ lit ".m3u8" := by decide
  simp [playlistName, hr, hp, hext, newline_notMem_decimal]

/-- **A player finds the playlists of the renditions**, and nothing else. -/
theorem variants_buildMasterPlaylist (h : ∀ r ∈ rs, r.name = decimal r.height ++ lit "p") :
    variants (buildMasterPlaylist rs srcWidth srcHeight) = rs.map playlistName := by
  rw [buildMasterPlaylist_lines, variants_tag (by decide) (by decide),
    variants_tag (by decide) (by decide)]
  induction rs with
  | nil => rfl
  | cons r rs ih =>
    have hr := h r List.mem_cons_self
    obtain ⟨c, hhead, hc⟩ := head?_name_append hr (lit ".m3u8")
    have hne : playlistName r ≠ [] := by
      intro hnil
      rw [show r.name ++ lit ".m3u8" = [] from hnil] at hhead
      cases hhead
    have hname : (playlistName r).head? ≠ some 35 := by
      intro htag
      obtain rfl := Option.some.inj (hhead.symm.trans htag)
      exact absurd hc (by decide)
    rw [List.flatMap_cons, List.append_assoc, List.cons_append, List.append_assoc,
      List.singleton_append, variants_tag newline_notMem_streamInf rfl,
      variants_name (newline_notMem_playlistName hr) hne hname, List.map_cons,
      ih fun r' hr' => h r' (List.mem_cons_of_mem _ hr')]

/-! ## Its length -/

/-- ffprobe's numbers are read as Go ints. -/
def GoInts (tools : Tools) : Prop :=
  ∀ input width height, tools.probeDimensions input = some (width, height) →
    width.natAbs ≤ 2 ^ 63 ∧ height.natAbs ≤ 2 ^ 63

/-- The height of a rendition is one of the ladder's or the source's. -/
theorem natAbs_height (h : r ∈ selectRenditions srcHeight) (hh : srcHeight.natAbs ≤ 2 ^ 63) :
    r.height.natAbs ≤ 2 ^ 63 ∧ (bitrateToBandwidth r.bitrate).natAbs ≤ 5000000 := by
  unfold selectRenditions at h
  dsimp only at h
  split at h
  · obtain rfl := List.mem_singleton.1 h
    have hlowest : (bitrateToBandwidth (lit "800k")).natAbs ≤ 5000000 := by decide
    exact ⟨hh, hlowest⟩
  · have hladder : ∀ r ∈ renditionLadder,
        r.height.natAbs ≤ 2 ^ 63 ∧ (bitrateToBandwidth r.bitrate).natAbs ≤ 5000000 := by decide
    exact hladder r (List.mem_filter.1 h).1

theorem natAbs_evenWidth (srcHeight : ℤ) (hr : r.height.natAbs ≤ 2 ^ 63)
    (hw : srcWidth.natAbs ≤ 2 ^ 63) : (evenWidth r.height srcWidth srcHeight).natAbs < 10 ^ 39 := by
  have hprod : (r.height * srcWidth).natAbs ≤ 2 ^ 63 * 2 ^ 63 := by
    rw [Int.natAbs_mul]
    exact Nat.mul_le_mul hr hw
  have hdiv : ((r.height * srcWidth).tdiv srcHeight).natAbs ≤ 2 ^ 63 * 2 ^ 63 := by
    rw [Int.natAbs_tdiv]
    exact le_trans (Nat.div_le_self _ _) hprod
  unfold evenWidth
  dsimp only
  split <;> omega

theorem length_selectRenditions (srcHeight : ℤ) : (selectRenditions srcHeight).length ≤ 3 := by
  unfold selectRenditions
  dsimp only
  split
  · exact Nat.le_of_ble_eq_true rfl
  · exact List.length_filter_le _ _

/-- A playlist is short. -/
theorem length_buildMasterPlaylist (hw : srcWidth.natAbs ≤ 2 ^ 63) (hh : srcHeight.natAbs ≤ 2 ^ 63) :
    (buildMasterPlaylist (selectRenditions srcHeight) srcWidth srcHeight).length < 2 ^ 63 := by
  have row : ∀ r ∈ selectRenditions srcHeight,
      (streamInf srcWidth srcHeight r ++ 10 :: (playlistName r ++ [10])).length ≤ 300 := by
    intro r hr
    obtain ⟨hheight, hbitrate⟩ := natAbs_height hr hh
    have hwidth := length_decimal 39 (by decide) (natAbs_evenWidth srcHeight hheight hw)
    have hheight' := length_decimal (n := r.height) 39 (by decide) (by omega)
    have hbandwidth := length_decimal (n := bitrateToBandwidth r.bitrate) 39 (by decide) (by omega)
    have h₁ : (lit "#EXT-X-STREAM-INF:BANDWIDTH=").length = 28 := rfl
    have h₂ : (lit ",RESOLUTION=").length = 12 := rfl
    have h₃ : (lit "x").length = 1 := rfl
    have h₄ : (lit "p").length = 1 := rfl
    have h₅ : (lit ".m3u8").length = 5 := rfl
    simp only [streamInf, playlistName, name_of_mem_selectRenditions hr, List.length_append,
      List.length_cons, List.length_nil, h₁, h₂, h₃, h₄, h₅]
    omega
  have hheader : (lit "#EXTM3U").length = 7 := rfl
  have hversion : (lit "#EXT-X-VERSION:3").length = 16 := rfl
  have hcount := length_selectRenditions srcHeight
  have hrows : ((selectRenditions srcHeight).flatMap fun r =>
      streamInf srcWidth srcHeight r ++ 10 :: (playlistName r ++ [10])).length ≤
        (selectRenditions srcHeight).length * 300 := by
    rw [List.length_flatMap]
    refine le_trans (List.sum_le_card_nsmul _ 300 fun n hn => ?_) (by simp)
    obtain ⟨r, hr, rfl⟩ := List.mem_map.1 hn
    exact row r hr
  rw [buildMasterPlaylist_lines]
  simp only [List.length_append, List.length_cons, hheader, hversion]
  omega

end Master

end Optiflow
