import Mathlib.Data.Rat.Floor
import Mathlib.Tactic.FieldSimp
import Mathlib.Tactic.Linarith
import Mathlib.Tactic.Positivity
import Optiflow.Proof.Playlists

/-!
# The ladder and its manifest

What a player reads from a master playlist, line by line (`parseMaster`), is what the ladder says
(`parseMaster_buildMasterPlaylist`).  The rungs of the ladder have even heights; the fallback for a small
source has the height of the source, so only an even one can be encoded (`ladder_fits_iff`).  The width
that the playlist advertises is the nearest multiple of two (`evenWidth_nearest`).
-/

namespace Optiflow

open Workers

/-! ## Reading numbers -/

section Digits

theorem digitValue_of_isDigit {c : Char} (h : c.isDigit = true) :
    digitValue (UInt8.ofNat c.toNat) = some (c.toNat - '0'.toNat) := by
  simp only [Char.isDigit, Bool.and_eq_true, decide_eq_true_eq] at h
  have hlow : 48 ≤ c.toNat := h.1
  have hhigh : c.toNat ≤ 57 := h.2
  have hmod : c.toNat % 256 = c.toNat := Nat.mod_eq_of_lt (by omega)
  have hzero : '0'.toNat = 48 := rfl
  simp only [digitValue, UInt8.toNat_ofNat', hmod, hzero]
  rw [if_pos (And.intro hlow hhigh)]

/-- A number is read back from its digits. -/
theorem foldl_digits (l : List Char) (h : ∀ c ∈ l, c.isDigit = true) (n : ℕ) :
    (l.map fun c => UInt8.ofNat c.toNat).foldl
      (fun n c => n.bind fun n => (digitValue c).map fun d => 10 * n + d) (some n) =
      some (Nat.ofDigitChars 10 l n) := by
  induction l generalizing n with
  | nil => rfl
  | cons c l ih =>
    rw [List.map_cons, List.foldl_cons, Option.bind_some, digitValue_of_isDigit (h c List.mem_cons_self),
      Option.map_some, ih (fun c hc => h c (List.mem_cons_of_mem _ hc)), Nat.ofDigitChars_cons]

theorem digits_decimal (n : ℕ) : digits (decimal n) = some n := by
  have hne : decimal n ≠ [] := decimal_ne_nil n
  have hdecimal : decimal n = (Nat.toDigits 10 n).map fun c => UInt8.ofNat c.toNat := by
    rw [← Nat.toList_repr]
    rfl
  have hisDigit : ∀ c ∈ Nat.toDigits 10 n, c.isDigit = true :=
    fun c hc => Nat.isDigit_of_mem_toDigits (by decide) (by decide) hc
  rw [digits, if_neg hne, hdecimal, foldl_digits _ hisDigit, Nat.ofDigitChars_ten_toDigits]

/-- The same for an integer that is not negative. -/
theorem digits_decimal_of_nonneg {n : ℤ} (h : 0 ≤ n) : digits (decimal n) = some n.toNat := by
  obtain ⟨m, rfl⟩ := Int.eq_ofNat_of_zero_le h
  exact digits_decimal m

end Digits

/-! ## Reading a manifest -/

/-- One variant stream of a master playlist. -/
structure Variant where
  bandwidth : ℕ
  width : ℕ
  height : ℕ
  uri : GoString
deriving DecidableEq

/-- The texts before and after the first `c`. -/
def cut (c : UInt8) (s : GoString) : GoString × GoString :=
  (s.takeWhile (· ≠ c), (s.dropWhile (· ≠ c)).drop 1)

/-- The attributes of a tag. -/
def attributes (s : GoString) : List (GoString × GoString) := (s.splitOn 44).map (cut 61)

def streamInfTag : GoString := lit "#EXT-X-STREAM-INF:"

/-- The bandwidth and the resolution of an `#EXT-X-STREAM-INF` line. -/
def parseStreamInf (line : GoString) : Option (ℕ × ℕ × ℕ) :=
  if streamInfTag.isPrefixOf line then do
    let attrs := attributes (line.drop streamInfTag.length)
    let bandwidth ← (attrs.lookup (lit "BANDWIDTH")).bind digits
    let resolution ← attrs.lookup (lit "RESOLUTION")
    let width ← digits (cut 120 resolution).1
    let height ← digits (cut 120 resolution).2
    return (bandwidth, width, height)
  else none

/-- A tag line and a URI line for each variant; the last line is empty. -/
def parseVariants : List GoString → Option (List Variant)
  | [[]] => some []
  | tag :: uri :: lines => do
    let (bandwidth, width, height) ← parseStreamInf tag
    let vs ← parseVariants lines
    return ⟨bandwidth, width, height, uri⟩ :: vs
  | _ => none

def parseMaster (body : Bytes) : Option (List Variant) :=
  match body.splitOn 10 with
  | header :: version :: lines =>
    if header = lit "#EXTM3U" ∧ version = lit "#EXT-X-VERSION:3" then parseVariants lines else none
  | _ => none

section Parse

variable {r : Rendition} {rs : List Rendition} {srcWidth srcHeight : ℤ}

theorem cut_append {c : UInt8} {a b : GoString} (h : c ∉ a) : cut c (a ++ c :: b) = (a, b) := by
  have hall : ∀ x ∈ a, decide (x ≠ c) = true := by
    intro x hx
    exact decide_eq_true fun hxc => h (hxc ▸ hx)
  have hc : ¬(fun x => decide (x ≠ c)) c = true := by simp
  rw [cut, List.takeWhile_append_of_pos hall, List.dropWhile_append_of_pos hall,
    List.takeWhile_cons_of_neg (a := c) hc, List.dropWhile_cons_of_neg (a := c) hc, List.append_nil]
  rfl

theorem notMem_decimal {c : UInt8} (hc : numeral c = false) (n : ℤ) : c ∉ decimal n := by
  intro h
  rw [numeral_of_mem_decimal h] at hc
  cases hc

/-- The numbers of a rendition can be written without a sign. -/
structure Printable (srcWidth srcHeight : ℤ) (r : Rendition) : Prop where
  bandwidth : 0 ≤ bitrateToBandwidth r.bitrate
  width : 0 ≤ evenWidth r.height srcWidth srcHeight
  height : 0 ≤ r.height
  name : r.name = decimal r.height ++ lit "p"

/-- The variant of a rendition. -/
def variantOf (srcWidth srcHeight : ℤ) (r : Rendition) : Variant :=
  ⟨(bitrateToBandwidth r.bitrate).toNat, (evenWidth r.height srcWidth srcHeight).toNat,
    r.height.toNat, playlistName r⟩

theorem attributes_streamInf : attributes ((streamInf srcWidth srcHeight r).drop streamInfTag.length) =
    [(lit "BANDWIDTH", decimal (bitrateToBandwidth r.bitrate)),
      (lit "RESOLUTION", decimal (evenWidth r.height srcWidth srcHeight) ++
        120 :: decimal r.height)] := by
  have hline : streamInf srcWidth srcHeight r = streamInfTag ++
      ((lit "BANDWIDTH" ++ 61 :: decimal (bitrateToBandwidth r.bitrate)) ++
        44 :: (lit "RESOLUTION" ++ 61 :: (decimal (evenWidth r.height srcWidth srcHeight) ++
          120 :: decimal r.height))) := by
    have hfirst : lit "#EXT-X-STREAM-INF:BANDWIDTH=" = streamInfTag ++ (lit "BANDWIDTH" ++ [61]) := by
      decide
    have hsecond : lit ",RESOLUTION=" = 44 :: (lit "RESOLUTION" ++ [61]) := by decide
    have hx : lit "x" = [120] := rfl
    simp [streamInf, hfirst, hsecond, hx]
  have hbandwidth : (44 : UInt8) ∉ lit "BANDWIDTH" ++ 61 :: decimal (bitrateToBandwidth r.bitrate) := by
    have hname : (44 : UInt8) ∉ lit "BANDWIDTH" := by decide
    simp [hname, notMem_decimal (by decide : numeral 44 = false)]
  have hresolution : (44 : UInt8) ∉ lit "RESOLUTION" ++
      61 :: (decimal (evenWidth r.height srcWidth srcHeight) ++ 120 :: decimal r.height) := by
    have hname : (44 : UInt8) ∉ lit "RESOLUTION" := by decide
    simp [hname, notMem_decimal (by decide : numeral 44 = false)]
  rw [attributes, hline, List.drop_left, List.splitOn_append_cons_self_of_not_mem hbandwidth,
    List.splitOn_eq_singleton hresolution, List.map_cons, List.map_singleton,
    cut_append (by decide), cut_append (by decide)]

theorem parseStreamInf_streamInf (h : Printable srcWidth srcHeight r) :
    parseStreamInf (streamInf srcWidth srcHeight r) =
      some ((variantOf srcWidth srcHeight r).bandwidth, (variantOf srcWidth srcHeight r).width,
        (variantOf srcWidth srcHeight r).height) := by
  have htag : streamInfTag.isPrefixOf (streamInf srcWidth srcHeight r) = true := by
    have hfirst : lit "#EXT-X-STREAM-INF:BANDWIDTH=" = streamInfTag ++ lit "BANDWIDTH=" := by decide
    rw [List.isPrefixOf_iff_prefix, streamInf, hfirst]
    simp only [List.append_assoc]
    exact List.prefix_append _ _
  have hx : (120 : UInt8) ∉ decimal (evenWidth r.height srcWidth srcHeight) :=
    notMem_decimal (by decide) _
  rw [parseStreamInf, if_pos htag, attributes_streamInf]
  have hne : (lit "RESOLUTION" == lit "BANDWIDTH") = false := by decide
  simp [List.lookup_cons, hne, cut_append hx, digits_decimal_of_nonneg h.bandwidth,
    digits_decimal_of_nonneg h.width, digits_decimal_of_nonneg h.height, variantOf]

/-- **The manifest reads back as the ladder it was built from.** -/
theorem parseMaster_buildMasterPlaylist (h : ∀ r ∈ rs, Printable srcWidth srcHeight r) :
    parseMaster (buildMasterPlaylist rs srcWidth srcHeight) =
      some (rs.map (variantOf srcWidth srcHeight)) := by
  have hlines : ∀ rs : List Rendition, (∀ r ∈ rs, Printable srcWidth srcHeight r) →
      parseVariants ((rs.flatMap fun r => streamInf srcWidth srcHeight r ++
        10 :: (playlistName r ++ [10])).splitOn 10) = some (rs.map (variantOf srcWidth srcHeight)) := by
    intro rs h
    induction rs with
    | nil => rfl
    | cons r rs ih =>
      have hr := h r List.mem_cons_self
      rw [List.flatMap_cons, List.append_assoc, List.cons_append, List.append_assoc,
        List.singleton_append, List.splitOn_append_cons_self_of_not_mem newline_notMem_streamInf,
        List.splitOn_append_cons_self_of_not_mem (newline_notMem_playlistName hr.name)]
      have hne : streamInf srcWidth srcHeight r ≠ [] := List.cons_ne_nil _ _
      simp [parseVariants, parseStreamInf_streamInf hr, ih fun r' hr' => h r' (List.mem_cons_of_mem _ hr')]
      rfl
  rw [parseMaster, buildMasterPlaylist_lines, List.splitOn_append_cons_self_of_not_mem (by decide),
    List.splitOn_append_cons_self_of_not_mem (by decide)]
  exact hlines rs h

end Parse

/-! ## The ladder -/

section Ladder

variable {r : Rendition} {srcWidth srcHeight : ℤ}

/-- An odd width is bumped, whatever the quotient was. -/
theorem even_bump (w : ℤ) : Even (if w.tmod 2 ≠ 0 then w + 1 else w) := by
  split
  · next hodd =>
    have : ¬(2 : ℤ) ∣ w := fun hdvd => hodd (Int.tmod_eq_zero_of_dvd hdvd)
    rw [Int.even_iff]
    omega
  · next heven =>
    exact even_iff_two_dvd.2 (Int.dvd_of_tmod_eq_zero (not_not.1 heven))

theorem even_evenWidth (height srcWidth srcHeight : ℤ) : Even (evenWidth height srcWidth srcHeight) :=
  even_bump _

theorem evenWidth_nonneg {height : ℤ} (hh : 0 ≤ height) (hw : 0 ≤ srcWidth) (hH : 0 ≤ srcHeight) :
    0 ≤ evenWidth height srcWidth srcHeight := by
  have hquot : 0 ≤ (height * srcWidth).tdiv srcHeight := Int.tdiv_nonneg (mul_nonneg hh hw) hH
  unfold evenWidth
  dsimp only
  split <;> omega

theorem rungs_ne_nil (h : 360 ≤ srcHeight) :
    (renditionLadder.filter fun r => r.height ≤ srcHeight) ≠ [] := by
  have hlowest : (⟨lit "360p", 360, lit "800k"⟩ : Rendition) ∈
      renditionLadder.filter fun r => r.height ≤ srcHeight :=
    List.mem_filter.2 ⟨List.mem_cons_self, decide_eq_true h⟩
  exact List.ne_nil_of_mem hlowest

theorem selectRenditions_of_le (h : 360 ≤ srcHeight) :
    selectRenditions srcHeight = renditionLadder.filter fun r => r.height ≤ srcHeight :=
  if_neg fun hzero => rungs_ne_nil h (List.length_eq_zero_iff.1 hzero)

/-- The rendition for a source below the lowest rung. -/
def nativeRendition (srcHeight : ℤ) : Rendition :=
  ⟨decimal srcHeight ++ lit "p", srcHeight, lit "800k"⟩

theorem selectRenditions_of_lt (h : srcHeight < 360) :
    selectRenditions srcHeight = [nativeRendition srcHeight] := by
  have hrungs : ∀ r ∈ renditionLadder, 360 ≤ r.height := by decide
  have hnone : (renditionLadder.filter fun r => r.height ≤ srcHeight) = [] := by
    apply List.filter_eq_nil_iff.2
    intro r hr hle
    have := hrungs r hr
    have := of_decide_eq_true hle
    omega
  rw [selectRenditions, hnone]
  rfl

/-- What holds of every rung, and of the fallback at a positive height. -/
theorem rendition_of_mem (hh : 0 < srcHeight) (h : r ∈ selectRenditions srcHeight) :
    r.height ≤ srcHeight ∧ 0 < r.height ∧ 0 < bitrateToBandwidth r.bitrate ∧
      r.name = decimal r.height ++ lit "p" := by
  have hname := name_of_mem_selectRenditions h
  by_cases hlow : srcHeight < 360
  · rw [selectRenditions_of_lt hlow] at h
    obtain rfl := List.mem_singleton.1 h
    have hbandwidth : 0 < bitrateToBandwidth (lit "800k") := by decide
    exact ⟨Int.le_refl _, hh, hbandwidth, hname⟩
  · rw [selectRenditions_of_le (by omega)] at h
    obtain ⟨hr, hle⟩ := List.mem_filter.1 h
    have hrungs : ∀ r ∈ renditionLadder, 0 < r.height ∧ 0 < bitrateToBandwidth r.bitrate := by decide
    exact ⟨of_decide_eq_true hle, (hrungs r hr).1, (hrungs r hr).2, hname⟩

theorem printable_of_mem (hw : 0 < srcWidth) (hh : 0 < srcHeight)
    (h : r ∈ selectRenditions srcHeight) : Printable srcWidth srcHeight r := by
  obtain ⟨-, hheight, hbandwidth, hname⟩ := rendition_of_mem hh h
  exact ⟨hbandwidth.le, evenWidth_nonneg hheight.le hw.le hh.le, hheight.le, hname⟩

/-- A variant says of a rendition what is true: its numbers, and the playlist that ffmpeg writes. -/
structure Describes (srcWidth srcHeight : ℤ) (r : Rendition) (v : Variant) : Prop where
  bandwidth : 0 < v.bandwidth ∧ (v.bandwidth : ℤ) = bitrateToBandwidth r.bitrate
  width : (v.width : ℤ) = evenWidth r.height srcWidth srcHeight
  height : (v.height : ℤ) = r.height
  uri : ∀ playlist segments, (v.uri, playlist) ∈ renditionFiles r playlist segments

/-- The ladder of a source can be encoded, and the manifest describes it. -/
structure LadderFits (srcWidth srcHeight : ℤ) : Prop where
  nonempty : selectRenditions srcHeight ≠ []
  names : ((selectRenditions srcHeight).map Rendition.name).Nodup
  heights : (selectRenditions srcHeight).Pairwise fun r r' => r.height < r'.height
  encodable : ∀ r ∈ selectRenditions srcHeight, r.height ≤ srcHeight ∧ 0 < r.height ∧
    Even r.height ∧ Even (evenWidth r.height srcWidth srcHeight)
  manifest : ∃ vs, parseMaster (buildMasterPlaylist (selectRenditions srcHeight) srcWidth srcHeight) =
    some vs ∧ List.Forall₂ (Describes srcWidth srcHeight) (selectRenditions srcHeight) vs

/-- The manifest of every source describes its ladder. -/
theorem manifest_describes (hw : 0 < srcWidth) (hh : 0 < srcHeight) :
    ∃ vs, parseMaster (buildMasterPlaylist (selectRenditions srcHeight) srcWidth srcHeight) = some vs ∧
      List.Forall₂ (Describes srcWidth srcHeight) (selectRenditions srcHeight) vs := by
  refine ⟨_, parseMaster_buildMasterPlaylist fun r hr => printable_of_mem hw hh hr, ?_⟩
  rw [List.forall₂_map_right_iff, List.forall₂_same]
  intro r hr
  obtain ⟨-, hheight, hbandwidth, -⟩ := rendition_of_mem hh hr
  have hprintable := printable_of_mem hw hh hr
  exact
    { bandwidth := ⟨by simpa [variantOf] using hbandwidth, Int.toNat_of_nonneg hprintable.bandwidth⟩
      width := Int.toNat_of_nonneg hprintable.width
      height := Int.toNat_of_nonneg hprintable.height
      uri := fun _ _ => List.mem_cons_self }

/-- **The ladder of a source can be encoded, and its manifest matches it, exactly when** the source is
at least as high as the lowest rung, or has an even height. -/
theorem ladder_fits_iff {srcWidth srcHeight : ℤ} (hw : 2 ≤ srcWidth) (hh : 2 ≤ srcHeight) :
    LadderFits srcWidth srcHeight ↔ 360 ≤ srcHeight ∨ Even srcHeight := by
  have hmanifest := manifest_describes (show 0 < srcWidth by omega) (show 0 < srcHeight by omega)
  have hencodable : ∀ r ∈ selectRenditions srcHeight, Even r.height →
      r.height ≤ srcHeight ∧ 0 < r.height ∧ Even r.height ∧
        Even (evenWidth r.height srcWidth srcHeight) := by
    intro r hr heven
    obtain ⟨hle, hpos, -, -⟩ := rendition_of_mem (by omega) hr
    exact ⟨hle, hpos, heven, even_evenWidth _ _ _⟩
  constructor
  · intro h
    by_cases hlow : srcHeight < 360
    · have hmem : nativeRendition srcHeight ∈ selectRenditions srcHeight := by
        rw [selectRenditions_of_lt hlow]
        exact List.mem_cons_self
      exact Or.inr (h.encodable _ hmem).2.2.1
    · exact Or.inl (by omega)
  · intro h
    by_cases hlow : srcHeight < 360
    · have heven : Even srcHeight := h.resolve_left (by omega)
      have hladder := selectRenditions_of_lt hlow
      refine ⟨?_, ?_, ?_, fun r hr => hencodable r hr ?_, hmanifest⟩
      · simp [hladder]
      · simp [hladder]
      · simp [hladder]
      · rw [hladder] at hr
        obtain rfl := List.mem_singleton.1 hr
        exact heven
    · have hladder := selectRenditions_of_le (show 360 ≤ srcHeight by omega)
      have hsub : (selectRenditions srcHeight).Sublist renditionLadder := by
        rw [hladder]
        exact List.filter_sublist
      have hnames : (renditionLadder.map Rendition.name).Nodup := by decide
      have hheights : renditionLadder.Pairwise fun r r' => r.height < r'.height := by decide
      have heven : ∀ r ∈ renditionLadder, Even r.height := by decide
      refine ⟨?_, hnames.sublist (hsub.map _), hheights.sublist hsub,
        fun r hr => hencodable r hr (heven r (hsub.subset hr)), hmanifest⟩
      rw [hladder]
      exact rungs_ne_nil (by omega)

/-- A source in 16 : 9 that has every rung. -/
theorem ladder_fits_hd : LadderFits 1920 1080 :=
  (ladder_fits_iff (by decide) (by decide)).2 (by decide)

/-- A source of 359 lines is encoded at 359 lines. -/
theorem odd_ladder : ¬LadderFits 640 359 := by
  intro h
  have hmem : nativeRendition 359 ∈ selectRenditions 359 := by
    rw [selectRenditions_of_lt (by decide)]
    exact List.mem_cons_self
  have heven : Even (359 : ℤ) := (h.encodable _ hmem).2.2.1
  exact absurd heven (by decide)

end Ladder

/-! ## The width of the frames -/

/-- The size of the frames that ffmpeg makes of a source under a filter `scale=-2:h`: the width is assumed
to be the nearest multiple of two, and the upper one when there are two. -/
def frameSize (filter : GoString) (srcWidth srcHeight : ℤ) : Option (ℤ × ℤ) :=
  let scale := lit "scale=-2:"
  if scale.isPrefixOf filter then
    (digits (filter.drop scale.length)).map fun (h : ℕ) =>
      (2 * ⌊((h : ℚ) * srcWidth) / (2 * srcHeight) + 1 / 2⌋, (h : ℤ))
  else none

section Width

variable {h w H : ℤ}

/-- The quotient, with the parity that decides whether it is bumped. -/
theorem evenWidth_cases (hh : 0 ≤ h) (hw : 0 ≤ w) (hH : 0 < H) :
    ∃ k : ℤ, (evenWidth h w H = 2 * k ∧ 2 * k * H ≤ h * w ∧ h * w < (2 * k + 1) * H) ∨
      (evenWidth h w H = 2 * k ∧ (2 * k - 1) * H ≤ h * w ∧ h * w < 2 * k * H) := by
  have hn : 0 ≤ h * w := mul_nonneg hh hw
  generalize hprod : h * w = n at hn ⊢
  have hquot : n.tdiv H = n / H := Int.tdiv_eq_ediv_of_nonneg hn
  have hlow : n / H * H ≤ n := Int.ediv_mul_le n hH.ne'
  have hhigh : n < (n / H + 1) * H := Int.lt_ediv_add_one_mul_self n hH
  unfold evenWidth
  dsimp only
  rw [hprod, hquot]
  split
  · next hodd =>
    have hdvd : ¬(2 : ℤ) ∣ n / H := fun hdvd => hodd (Int.tmod_eq_zero_of_dvd hdvd)
    obtain ⟨k, hk⟩ : ∃ k, n / H = 2 * k - 1 := ⟨(n / H + 1) / 2, by omega⟩
    rw [hk] at hlow hhigh ⊢
    refine ⟨k, Or.inr ⟨by omega, hlow, ?_⟩⟩
    calc n < (2 * k - 1 + 1) * H := hhigh
      _ = 2 * k * H := by ring
  · next heven =>
    obtain ⟨k, hk⟩ := Int.dvd_of_tmod_eq_zero (not_not.1 heven)
    rw [hk] at hlow hhigh ⊢
    exact ⟨k, Or.inl ⟨rfl, hlow, hhigh⟩⟩

/-- The advertised width is the nearest multiple of two. -/
theorem evenWidth_eq_floor (hh : 0 ≤ h) (hw : 0 ≤ w) (hH : 0 < H) :
    evenWidth h w H = 2 * ⌊(h * w : ℚ) / (2 * H) + 1 / 2⌋ := by
  have hHq : (0 : ℚ) < H := by exact_mod_cast hH
  have hsum : (h * w : ℚ) / (2 * H) + 1 / 2 = (h * w + H) / (2 * H) := by
    field_simp
  have hfloor : ∀ k : ℤ, (2 * k - 1) * H ≤ h * w → h * w < (2 * k + 1) * H →
      ⌊(h * w : ℚ) / (2 * H) + 1 / 2⌋ = k := by
    intro k hlow hhigh
    have hlow : ((2 * k - 1) * H : ℚ) ≤ h * w := by exact_mod_cast hlow
    have hhigh : (h * w : ℚ) < (2 * k + 1) * H := by exact_mod_cast hhigh
    rw [hsum, Int.floor_eq_iff, le_div_iff₀ (by positivity), div_lt_iff₀ (by positivity)]
    constructor <;> linarith
  obtain ⟨k, ⟨hk, hlow, hhigh⟩ | ⟨hk, hlow, hhigh⟩⟩ := evenWidth_cases hh hw hH
  · rw [hk, hfloor k (by linarith) hhigh]
  · rw [hk, hfloor k hlow (by linarith)]

/-- It differs from the exact quotient by at most one. -/
theorem evenWidth_near (hh : 0 ≤ h) (hw : 0 ≤ w) (hH : 0 < H) :
    |(evenWidth h w H : ℚ) - h * w / H| ≤ 1 := by
  have hHq : (0 : ℚ) < H := by exact_mod_cast hH
  have hquot : ∀ k : ℤ, (2 * k - 1) * H ≤ h * w → h * w ≤ (2 * k + 1) * H →
      |((2 * k : ℤ) : ℚ) - h * w / H| ≤ 1 := by
    intro k hlow hhigh
    have hlow : ((2 * k - 1) * H : ℚ) ≤ h * w := by exact_mod_cast hlow
    have hhigh : (h * w : ℚ) ≤ (2 * k + 1) * H := by exact_mod_cast hhigh
    have hlow : (2 * k - 1 : ℚ) ≤ h * w / H := (le_div_iff₀ hHq).2 hlow
    have hhigh : (h * w / H : ℚ) ≤ 2 * k + 1 := (div_le_iff₀ hHq).2 hhigh
    rw [abs_le]
    push_cast
    constructor <;> linarith
  obtain ⟨k, ⟨hk, hlow, hhigh⟩ | ⟨hk, hlow, hhigh⟩⟩ := evenWidth_cases hh hw hH
  · rw [hk]
    exact hquot k (by linarith) hhigh.le
  · rw [hk]
    exact hquot k hlow (by linarith)

theorem frameSize_scaleFilter {r : Rendition} (hr : 0 ≤ r.height) (hw : 0 ≤ w) (hH : 0 < H) :
    frameSize (scaleFilter r) w H = some (evenWidth r.height w H, r.height) := by
  have hcast : ((r.height.toNat : ℕ) : ℤ) = r.height := Int.toNat_of_nonneg hr
  have hcastq : ((r.height.toNat : ℕ) : ℚ) = r.height := by exact_mod_cast hcast
  have hscale : (lit "scale=-2:").isPrefixOf (scaleFilter r) = true :=
    List.isPrefixOf_iff_prefix.2 (List.prefix_append _ _)
  unfold frameSize
  dsimp only
  rw [if_pos hscale, scaleFilter, List.drop_left, digits_decimal_of_nonneg hr, Option.map_some, hcastq,
    hcast, evenWidth_eq_floor hr hw hH]

/-- **The advertised width is the width of the frames**: the nearest multiple of two, and so every
`RESOLUTION` in the manifest of a source is the size of the frames that ffmpeg makes for its rendition. -/
theorem evenWidth_nearest (hh : 0 < h) (hw : 0 < w) (hH : 0 < H) :
    evenWidth h w H = 2 * ⌊(h * w : ℚ) / (2 * H) + 1 / 2⌋ ∧ Even (evenWidth h w H) ∧
    |(evenWidth h w H : ℚ) - h * w / H| ≤ 1 ∧
    ∃ vs, parseMaster (buildMasterPlaylist (selectRenditions H) w H) = some vs ∧
      List.Forall₂ (fun r v => frameSize (scaleFilter r) w H = some ((v.width : ℤ), (v.height : ℤ)))
        (selectRenditions H) vs := by
  refine ⟨evenWidth_eq_floor hh.le hw.le hH, even_evenWidth _ _ _, evenWidth_near hh.le hw.le hH, ?_⟩
  obtain ⟨vs, hvs, hdescribes⟩ := manifest_describes hw hH
  refine ⟨vs, hvs, List.Forall₂.imp ?_ hdescribes⟩
  intro r v hv
  have hr : 0 ≤ r.height := by
    rw [← hv.height]
    exact Int.natCast_nonneg _
  rw [frameSize_scaleFilter hr hw.le hH, hv.width, hv.height]

/-- 360 lines of a source of 1366 by 768, whose width is 640.3. -/
theorem evenWidth_nearest_laptop :
    evenWidth 360 1366 768 = 2 * ⌊((360 : ℤ) * (1366 : ℤ) : ℚ) / (2 * (768 : ℤ)) + 1 / 2⌋ ∧
    Even (evenWidth 360 1366 768) :=
  have hnearest := evenWidth_nearest (h := 360) (w := 1366) (H := 768) (by decide) (by decide) (by decide)
  ⟨hnearest.1, hnearest.2.1⟩

end Width

end Optiflow
